/-
# At most one leader in a term

Election Safety for the runs in which no turn takes one of the branches
`VotesOnce`, `StepsDown`, `StartsClean` and `TermFits` exclude, and a run of
three nodes in which two of them lead the first term.

The state of a cluster is related to a record of votes and leaders
(`Protocol.Ballots`).  A candidacy casts the candidate's own vote, a granted
request casts the voter's, and a node that reaches its quorum is elected with
the voters it counted.  `Voting` says what the record knows of a node and
`Backed` what it knows of a packet in flight; every turn keeps both
(`Voting.turned`), possibly with a larger record.  The node may grant a second
vote in a term to the leader it already follows; such a vote is not recorded, and
it elects nobody, since that leader is past its election.
-/

import RaftPlayground.Protocol.Ballots
import RaftPlayground.Safety.Overlap
import RaftPlayground.Safety.Terms
import RaftPlayground.Server.Upkeep

namespace RaftPlayground
namespace Safety

open Protocol Server

/-- The conditions on a turn under which elections are safe. -/
structure ElectsOnce (env : Env) (n : Node) (i : Input) : Prop where
  votesOnce : VotesOnce n i
  stepsDown : StepsDown n i
  startsClean : StartsClean env n i
  termFits : TermFits env n i

instance (env : Env) (n : Node) (i : Input) : Decidable (ElectsOnce env n i) :=
  decidable_of_iff (VotesOnce n i ∧ StepsDown n i ∧ StartsClean env n i ∧ TermFits env n i)
    ⟨fun h => ⟨h.1, h.2.1, h.2.2.1, h.2.2.2⟩, fun h => ⟨h.1, h.2, h.3, h.4⟩⟩

section

variable {env : Env} {n n' : Node} {i : Input} {eff : Effects}

/-- A leader that goes on leading does so in its term. -/
theorem term_of_leaders (ht : n.Turned env i n' eff) (hdown : StepsDown n i)
    (hbefore : n.volatile.status = .leader) (hafter : n'.volatile.status = .leader) :
    n'.persistent.term = n.persistent.term := by
  cases ht with
  | voteRefused le _ log =>
      rcases le.eq_or_lt with heq | hlt
      · exact heq.symm
      · exact absurd (hdown hlt hbefore) log
  | candidacy | voteGranted | outrun | entriesUnknown | entriesEmpty | entriesStored =>
      simp at hafter
  | _ => rfl

end

section

variable {members : List NodeId}

/-- The record of the elections of a cluster. -/
abbrev Record (members : List NodeId) := Ballots ℕ members.toFinset

/-- How a node remembers the vote it cast in its own term: it ran itself, or
`voted_for` names the candidate or the leader of the term. -/
def Remembers (b : Record members) (id : NodeId) (n : Node) (c : NodeId) : Prop :=
  (n.volatile.status ≠ .follower ∧ c = id) ∨
    (n.volatile.status = .follower ∧
      (n.volatile.votedFor = some c ∨
        ∃ y, n.volatile.votedFor = some y ∧ b.leader n.persistent.term = some y))

/-- What the record knows of the node `id`. -/
structure Voting (b : Record members) (id : NodeId) (n : Node) : Prop where
  vote_le : ∀ t c, b.vote t id = some c → t ≤ n.persistent.term
  remembers : ∀ c, b.vote n.persistent.term id = some c → Remembers b id n c
  leads : n.volatile.status = .leader → b.leader n.persistent.term = some id
  reign : ∀ t, b.leader t = some id →
    t ≤ n.persistent.term ∧ (t = n.persistent.term → n.volatile.status = .leader)
  tally : ∀ p ∈ n.volatile.tally, p ∈ members ∧ p ≠ id ∧
    ∃ t, b.vote t p = some id ∧ b.vote t id = some id ∧ ∀ t', b.vote t' id = some id → t' ≤ t

/-- What the record knows of a packet in flight. -/
def Backed (b : Record members) : Packet → Prop
  | .voteReq src _ req => b.vote req.term src = some src
  | .voteResp src dst t granted =>
    granted = true → b.vote t dst = some dst ∧ (b.vote t src = some dst ∨ b.leader t = some dst)
  | .entriesReq src _ req => b.leader req.term = some src
  | .entriesResp .. => True

theorem Backed.mono {b b' : Record members} (hle : b ≤ b') {p : Packet} (h : Backed b p) :
    Backed b' p := by
  cases p with
  | voteReq => exact Ballots.vote_mono hle h
  | voteResp =>
      intro hg
      obtain ⟨h₁, h₂⟩ := h hg
      exact ⟨Ballots.vote_mono hle h₁, h₂.imp (Ballots.vote_mono hle) (Ballots.leader_mono hle)⟩
  | entriesReq => exact Ballots.leader_mono hle h
  | entriesResp => trivial

/-- What the record knows of an input of the node `id`. -/
def Expected (b : Record members) (id : NodeId) : Input → Prop
  | .msg (.requestVote term cand _ _) => cand ≠ id ∧ b.vote term cand = some cand
  | .msg (.voteReceived p term granted) =>
    p ∈ members ∧ p ≠ id ∧
      (granted = true →
        b.vote term id = some id ∧ (b.vote term p = some id ∨ b.leader term = some id))
  | .msg (.appendEntries term leader _ _ _ _) => leader ≠ id ∧ b.leader term = some leader
  | _ => True

theorem Backed.expected {b : Record members} {p : Packet} (h : Backed b p)
    (hr : p.Routed members) : Expected b p.dst (.msg p.msg) := by
  cases p with
  | voteReq src dst req =>
      have hsigned : req.candidateId = src := hr.signed
      exact ⟨hsigned ▸ hr.ne, hsigned ▸ h⟩
  | voteResp => exact ⟨hr.src_mem, hr.ne, h⟩
  | entriesReq src dst req =>
      have hsigned : req.leaderId = src := hr.signed
      exact ⟨hsigned ▸ hr.ne, hsigned ▸ h⟩
  | entriesResp => trivial

/-- What the record knows of the packets, it knows of the inputs. -/
theorem expected_of_origin {b : Record members} {id : NodeId} {i : Input}
    (h : Origin members (Backed b) id i) : Expected b id i := by
  cases h with
  | tick => trivial
  | client req => cases req <;> trivial
  | packet p hr hdst hp => exact hdst ▸ hp.expected hr

/-- What the record knows of the reply to an input of the node `id`: a granted
vote is recorded, or goes to the leader of the term. -/
def Answered (b : Record members) (id : NodeId) (eff : Effects) : Input → Prop
  | .msg (.requestVote _ cand _ _) =>
    ∀ t, eff.reply = some (t, true) →
      b.vote t cand = some cand ∧ (b.vote t id = some cand ∨ b.leader t = some cand)
  | _ => True

theorem Backed.answer {b : Record members} {p q : Packet} {eff : Effects}
    (hr : p.Routed members) (hans : Answered b p.dst eff (.msg p.msg)) (hq : q ∈ p.answer eff) :
    Backed b q := by
  cases p with
  | voteReq src dst req =>
      obtain ⟨term, granted, hreply, rfl⟩ := Packet.mem_answer_voteReq.1 hq
      rintro rfl
      have hsigned : req.candidateId = src := hr.signed
      exact hsigned ▸ hans term hreply
  | entriesReq =>
      obtain ⟨_, _, _, rfl⟩ := Packet.mem_answer_entriesReq.1 hq
      trivial
  | voteResp | entriesResp => simp [Packet.answer] at hq

/-- A turn of another node leaves what the record knows of this one. -/
theorem Voting.extendsBy {b b' : Record members} {id id' : NodeId} {n : Node} (h : Voting b id n)
    (hext : Ballots.ExtendsBy id' b b') (hne : id ≠ id') : Voting b' id n where
  vote_le t c hv := h.vote_le t c (hext.vote_of_ne t id c hne hv)
  remembers c hv := by
    rcases h.remembers c (hext.vote_of_ne _ id c hne hv) with hr | ⟨hf, hr | ⟨y, hy, hl⟩⟩
    · exact Or.inl hr
    · exact Or.inr ⟨hf, Or.inl hr⟩
    · exact Or.inr ⟨hf, Or.inr ⟨y, hy, Ballots.leader_mono hext.le hl⟩⟩
  leads hl := Ballots.leader_mono hext.le (h.leads hl)
  reign t hl := h.reign t (hext.leader_of_ne t id hne hl)
  tally p hp := by
    obtain ⟨hm, hpid, t, hv, hself, hmax⟩ := h.tally p hp
    exact ⟨hm, hpid, t, Ballots.vote_mono hext.le hv, Ballots.vote_mono hext.le hself,
      fun t' hv' => hmax t' (hext.vote_of_ne t' id id hne hv')⟩

/-- Only the term, the status, the vote and the tally matter. -/
theorem Voting.congr {b : Record members} {id : NodeId} {n n' : Node} (h : Voting b id n)
    (hterm : n'.persistent.term = n.persistent.term)
    (hstatus : n'.volatile.status = n.volatile.status)
    (hvote : n'.volatile.votedFor = n.volatile.votedFor)
    (htally : n'.volatile.tally = n.volatile.tally) : Voting b id n' where
  vote_le := by rw [hterm]; exact h.vote_le
  remembers := by
    unfold Remembers
    rw [hterm, hstatus, hvote]
    exact h.remembers
  leads := by rw [hterm, hstatus]; exact h.leads
  reign := by rw [hterm, hstatus]; exact h.reign
  tally := by rw [htally]; exact h.tally

/-- No vote of the record is in a term above the node's own. -/
theorem Voting.vote_eq_none {b : Record members} {id : NodeId} {n : Node} (h : Voting b id n)
    {t : ℕ} (ht : n.persistent.term < t) : b.vote t id = none := by
  refine Option.eq_none_iff_forall_ne_some.2 fun c hc => ?_
  have hle := h.vote_le t c hc
  omega

/-- No election of the record is in a term above the node's own. -/
theorem Voting.reign_lt {b : Record members} {id : NodeId} {n : Node} (h : Voting b id n)
    {t term : ℕ} (hl : b.leader t = some id) (hterm : n.persistent.term < term) : t < term :=
  (h.reign t hl).1.trans_lt hterm

/-- The node moves to a higher term, in which it has no vote and leads nobody. -/
theorem Voting.raise {b : Record members} {id : NodeId} {n n' : Node} (h : Voting b id n)
    (hterm : n.persistent.term < n'.persistent.term) (hstatus : n'.volatile.status ≠ .leader)
    (htally : n'.volatile.tally = n.volatile.tally) : Voting b id n' where
  vote_le t c hv := by
    have hle := h.vote_le t c hv
    omega
  remembers c hv := by
    have hnone := h.vote_eq_none hterm
    rw [hv] at hnone
    exact absurd hnone (Option.some_ne_none c)
  leads hl := absurd hl hstatus
  reign t hl := by
    have hlt := h.reign_lt hl hterm
    exact ⟨hlt.le, fun heq => absurd heq hlt.ne⟩
  tally := by
    rw [htally]
    exact h.tally

/-- The node follows the leader of a term it has reached. -/
theorem Voting.follow {b : Record members} {id : NodeId} {n n' : Node} (h : Voting b id n)
    {y : NodeId} (hy : y ≠ id) (hlead : b.leader n'.persistent.term = some y)
    (hterm : n.persistent.term ≤ n'.persistent.term) (hstatus : n'.volatile.status = .follower)
    (hvote : n'.volatile.votedFor = some y) (htally : n'.volatile.tally = n.volatile.tally) :
    Voting b id n' where
  vote_le t c hv := by
    have hle := h.vote_le t c hv
    omega
  remembers c _ := Or.inr ⟨hstatus, Or.inr ⟨y, hvote, hlead⟩⟩
  leads hl := by
    rw [hstatus] at hl
    cases hl
  reign t hl := by
    obtain ⟨hle, _⟩ := h.reign t hl
    constructor
    · omega
    · intro heq
      subst heq
      have hself : y = id := Option.some.inj (hlead.symm.trans hl)
      exact absurd hself hy
  tally := by
    rw [htally]
    exact h.tally

/-- The node, not a leader, casts its vote for another one in a term it has reached. -/
theorem Voting.grant {b : Record members} {id cand : NodeId} {n n' : Node} {t : ℕ}
    (h : Voting b id n) (hfree : b.vote t id = none) (hcand : cand ≠ id)
    (ht : n'.persistent.term = t) (hterm : n.persistent.term ≤ t)
    (hlead : n.persistent.term = t → n.volatile.status ≠ .leader)
    (hstatus : n'.volatile.status = .follower) (hvote : n'.volatile.votedFor = some cand)
    (htally : n'.volatile.tally = n.volatile.tally) :
    Voting (b.cast t id cand hfree) id n' := by
  subst ht
  have hgrows : b ≤ b.cast n'.persistent.term id cand hfree := b.le_cast hfree
  constructor
  case vote_le =>
    intro t c hv
    rcases Ballots.cast_vote hv with ⟨rfl, _, _⟩ | hv
    · exact le_rfl
    · have hle := h.vote_le t c hv
      omega
  case remembers =>
    intro c hv
    rw [Ballots.cast_vote_self] at hv
    exact Or.inr ⟨hstatus, Or.inl (hvote.trans hv)⟩
  case leads =>
    intro hl
    rw [hstatus] at hl
    cases hl
  case reign =>
    intro t hl
    obtain ⟨hle, himp⟩ := h.reign t hl
    constructor
    · omega
    · intro heq
      have heq' : n.persistent.term = n'.persistent.term := by omega
      have hleads : n.volatile.status = .leader := himp (by omega)
      exact absurd hleads (hlead heq')
  case tally =>
    intro p hp
    rw [htally] at hp
    obtain ⟨hm, hpid, t, hv, hself, hmax⟩ := h.tally p hp
    refine ⟨hm, hpid, t, Ballots.vote_mono hgrows hv, Ballots.vote_mono hgrows hself, ?_⟩
    intro t' hv'
    rcases Ballots.cast_vote hv' with ⟨_, _, heq⟩ | hv'
    · exact absurd heq.symm hcand
    · exact hmax t' hv'

/-- The node runs in a new term, with an empty tally, and votes for itself. -/
theorem Voting.run {b : Record members} {id : NodeId} {n n' : Node} (h : Voting b id n)
    (hfree : b.vote n'.persistent.term id = none)
    (hterm : n.persistent.term < n'.persistent.term) (hstatus : n'.volatile.status = .candidate)
    (htally : n'.volatile.tally = ∅) :
    Voting (b.cast n'.persistent.term id id hfree) id n' where
  vote_le t c hv := by
    rcases Ballots.cast_vote hv with ⟨rfl, _, _⟩ | hv
    · exact le_rfl
    · have hle := h.vote_le t c hv
      omega
  remembers c hv := by
    have hruns : n'.volatile.status ≠ .follower := by simp [hstatus]
    rw [Ballots.cast_vote_self] at hv
    exact Or.inl ⟨hruns, (Option.some.inj hv).symm⟩
  leads hl := by
    rw [hstatus] at hl
    cases hl
  reign t hl := by
    have hlt := h.reign_lt hl hterm
    exact ⟨hlt.le, fun heq => absurd heq hlt.ne⟩
  tally p hp := by
    rw [htally] at hp
    simp at hp

/-- A node that votes in a term it has just reached, or with no vote in `voted_for`, has
no vote of the term on the record. -/
theorem Voting.vote_free {b : Record members} {id : NodeId} {n : Node} (h : Voting b id n)
    {term : ℕ} (hterm : n.persistent.term ≤ term)
    (hfree : n.persistent.term < term ∨ n.volatile.votedFor = none)
    (hfollow : n.persistent.term = term → n.volatile.status = .follower) :
    b.vote term id = none := by
  rcases hterm.eq_or_lt with heq | hlt
  · subst heq
    have hnone : n.volatile.votedFor = none := hfree.resolve_left (lt_irrefl _)
    refine Option.eq_none_iff_forall_ne_some.2 fun c hc => ?_
    rcases h.remembers c hc with ⟨hruns, _⟩ | ⟨_, hvoted | ⟨y, hvoted, _⟩⟩
    · exact hruns (hfollow rfl)
    · rw [hnone] at hvoted
      cases hvoted
    · rw [hnone] at hvoted
      cases hvoted
  · exact h.vote_eq_none hlt

/-- A follower that repeats its vote repeats the recorded one, or votes for the leader of
the term. -/
theorem Voting.vote_repeated {b : Record members} {id c cand : NodeId} {n : Node}
    (h : Voting b id n) (hvote : b.vote n.persistent.term id = some c)
    (hfollow : n.volatile.status = .follower) (hvoted : n.volatile.votedFor = some cand) :
    b.vote n.persistent.term id = some cand ∨ b.leader n.persistent.term = some cand := by
  rcases h.remembers c hvote with ⟨hruns, _⟩ | ⟨_, hc | ⟨y, hy, hlead⟩⟩
  · exact absurd hfollow hruns
  · rw [hvoted] at hc
    exact Or.inl (hc ▸ hvote)
  · rw [hvoted] at hy
    exact Or.inr (hy ▸ hlead)

/-- The granted vote of a node that does not lead is recorded for it. -/
theorem Voting.vote_of_granted {b : Record members} {id p : NodeId} {n : Node}
    (h : Voting b id n) (hlead : n.volatile.status ≠ .leader)
    (hp : b.vote n.persistent.term p = some id ∨ b.leader n.persistent.term = some id) :
    b.vote n.persistent.term p = some id :=
  hp.resolve_right fun hl => hlead ((h.reign _ hl).2 rfl)

/-- A node that has not won its own term counts a granted vote. -/
theorem Voting.count {b : Record members} {id p : NodeId} {n : Node} (h : Voting b id n)
    (hmem : p ∈ members) (hpid : p ≠ id) (hself : b.vote n.persistent.term id = some id)
    (hvote : b.vote n.persistent.term p = some id) :
    Voting b id
      { n with volatile := { n.volatile with tally := insert p n.volatile.tally } } where
  vote_le := h.vote_le
  remembers := h.remembers
  leads := h.leads
  reign := h.reign
  tally q hq := by
    rcases Finset.mem_insert.1 hq with rfl | hq
    · exact ⟨hmem, hpid, _, hvote, hself, fun t' hv' => h.vote_le t' _ hv'⟩
    · exact h.tally q hq

/-- Everyone in the tally of a node that runs in its own term voted for it there. -/
theorem Voting.vote_of_tally {b : Record members} {id p : NodeId} {n : Node} (h : Voting b id n)
    (hself : b.vote n.persistent.term id = some id) (hp : p ∈ n.volatile.tally) :
    b.vote n.persistent.term p = some id := by
  obtain ⟨_, _, t, hv, hown, hmax⟩ := h.tally p hp
  have hle := hmax _ hself
  have hge := h.vote_le t id hown
  rwa [le_antisymm hge hle] at hv

/-- Where a node that does not lead has a majority of votes, there is no leader yet. -/
theorem Voting.leader_free {b : Record members} {id : NodeId} {n : Node} (h : Voting b id n)
    (hlead : n.volatile.status ≠ .leader) {Q : Finset NodeId}
    (hmaj : Majority members.toFinset Q)
    (hvotes : ∀ q ∈ Q, b.vote n.persistent.term q = some id) :
    b.leader n.persistent.term = none := by
  refine Option.eq_none_iff_forall_ne_some.2 fun d hd => ?_
  obtain rfl : d = id := b.eq_of_majority hmaj hvotes hd
  have hleads : n.volatile.status = .leader := (h.reign _ hd).2 rfl
  exact hlead hleads

/-- The node is elected in its own term, and its tally is emptied. -/
theorem Voting.elect {b : Record members} {id : NodeId} {n n' : Node} (h : Voting b id n)
    (hown : b.vote n.persistent.term id = some id) {Q : Finset NodeId}
    (hmaj : Majority members.toFinset Q)
    (hvotes : ∀ q ∈ Q, b.vote n.persistent.term q = some id)
    (hterm : n'.persistent.term = n.persistent.term) (hstatus : n'.volatile.status = .leader)
    (htally : n'.volatile.tally = ∅) :
    Voting (b.elect n.persistent.term id Q hmaj hvotes) id n' where
  vote_le := by
    rw [hterm]
    exact h.vote_le
  remembers c hc := by
    have hruns : n'.volatile.status ≠ .follower := by simp [hstatus]
    rw [hterm] at hc
    exact Or.inl ⟨hruns, (Option.some.inj (hown.symm.trans hc)).symm⟩
  leads _ := by
    rw [hterm]
    exact b.elect_leader_self hmaj hvotes
  reign t hl := by
    rw [hterm]
    refine ⟨?_, fun _ => hstatus⟩
    rcases Ballots.elect_leader hl with ⟨rfl, _⟩ | hl
    · exact le_rfl
    · exact (h.reign t hl).1
  tally p hp := by
    rw [htally] at hp
    simp at hp

/-- The node and the peers it counted, once they are a quorum, are a majority. -/
theorem majority_of_quorum {id : NodeId} {n : Node} (hp : n.Placed members id)
    (hid : id ∈ members) {Q : Finset NodeId} (hQ : ∀ p ∈ Q, p ∈ members ∧ p ≠ id)
    (hquorum : 1 + Q.card > n.volatile.clusterSize / 2) :
    Majority members.toFinset (insert id Q) := by
  have hids : n.volatile.seeds.ids.toFinset = members.toFinset.erase id := by
    ext p
    rw [Finset.mem_erase, List.mem_toFinset, List.mem_toFinset, hp.mem_ids, and_comm]
  have helecting : Electing members.toFinset id { n.volatile with tally := Q } :=
    { member := List.mem_toFinset.2 hid
      seeds := hids
      tally := fun p hpQ => List.mem_toFinset.2 ((hp.mem_ids p).2 (hQ p hpQ)) }
  exact helecting.quorum_iff.1 (decide_eq_true hquorum)

/-- The replication requests of a leader are backed by its election. -/
theorem backed_entriesReqs {b : Record members} {id : NodeId} {s : Seeds} {es : Entries}
    {term commit : ℕ} {eff : Effects} {p : Packet}
    (hlead : b.leader term = some id) (hvotes : eff.voteReqs = [])
    (hreqs : eff.entriesReqs = s.sendAppendEntries es term commit) (hp : p ∈ eff.packets id) :
    Backed b p := by
  rw [Effects.mem_packets, hvotes, hreqs] at hp
  rcases hp with ⟨_, h, _⟩ | ⟨x, hx, rfl⟩
  · simp at h
  · obtain ⟨seed, hseed, rfl⟩ := Seeds.mem_sendAppendEntries hx
    exact hlead

theorem not_mem_packets {id : NodeId} {eff : Effects} (hvotes : eff.voteReqs = [])
    (hreqs : eff.entriesReqs = []) (p : Packet) : p ∉ eff.packets id := by
  rw [Effects.mem_packets, hvotes, hreqs]
  simp

/-- The record grows by votes of the node and by its election: a leader recorded anew
is the node, in its term, which it starts to lead and which had no leader. -/
structure Grows (id : NodeId) (n n' : Node) (b b' : Record members) : Prop where
  ext : Ballots.ExtendsBy id b b'
  leader : ∀ t, b'.leader t = b.leader t ∨
    (b.leader t = none ∧ t = n'.persistent.term ∧ n.volatile.status ≠ .leader ∧
      n'.volatile.status = .leader)

theorem Grows.refl (id : NodeId) (n n' : Node) (b : Record members) : Grows id n n' b b :=
  ⟨.refl id b, fun _ => Or.inl rfl⟩

theorem Grows.cast {b : Record members} {t : ℕ} {id c : NodeId} {n n' : Node}
    (hfree : b.vote t id = none) : Grows id n n' b (b.cast t id c hfree) :=
  ⟨.cast b hfree, fun _ => Or.inl rfl⟩

/-- A turn that casts no vote, elects nobody and sends nothing needs no larger record. -/
theorem Voting.same {b : Record members} {id : NodeId} {n n' : Node} {i : Input} {eff : Effects}
    (hv : Voting b id n') (hans : Answered b id eff i) (hvotes : eff.voteReqs = [])
    (hreqs : eff.entriesReqs = []) :
    ∃ b', Grows id n n' b b' ∧ Voting b' id n' ∧ Answered b' id eff i ∧
      ∀ p ∈ eff.packets id, Backed b' p :=
  ⟨b, .refl id n n' b, hv, hans, fun p hp => absurd hp (not_mem_packets hvotes hreqs p)⟩

theorem answered_false {b : Record members} {id : NodeId} {eff : Effects} {t : ℕ} {i : Input}
    (h : eff.reply = some (t, false)) : Answered b id eff i := by
  unfold Answered
  split
  · intro t' ht'
    rw [h] at ht'
    exact absurd (Prod.mk.inj (Option.some.inj ht')).2 Bool.false_ne_true
  · trivial

/-- A vote for another node in a term without one goes on the record. -/
theorem Voting.granted {b : Record members} {id cand : NodeId} {n n' : Node} {eff : Effects}
    {term lli llt : ℕ} (hv : Voting b id n)
    (hexp : Expected b id (.msg (.requestVote term cand lli llt))) (hfree : b.vote term id = none)
    (hle : n.persistent.term ≤ term)
    (hlead : n.persistent.term = term → n.volatile.status ≠ .leader)
    (hterm : n'.persistent.term = term) (hstatus : n'.volatile.status = .follower)
    (hvote : n'.volatile.votedFor = some cand) (htally : n'.volatile.tally = n.volatile.tally)
    (hreply : ∀ t, eff.reply = some (t, true) → t = term)
    (hvotes : eff.voteReqs = []) (hreqs : eff.entriesReqs = []) :
    ∃ b', Grows id n n' b b' ∧ Voting b' id n' ∧
      Answered b' id eff (.msg (.requestVote term cand lli llt)) ∧
        ∀ p ∈ eff.packets id, Backed b' p := by
  obtain ⟨hcand, hrun⟩ := hexp
  refine ⟨b.cast term id cand hfree, .cast hfree,
    hv.grant hfree hcand hterm hle hlead hstatus hvote htally, ?_, ?_⟩
  · intro t ht
    obtain rfl := hreply t ht
    exact ⟨Ballots.vote_mono (b.le_cast hfree) hrun, Or.inl (b.cast_vote_self hfree)⟩
  · intro p hp
    exact absurd hp (not_mem_packets hvotes hreqs p)

/-- A node that reaches its quorum is elected by the voters it counted. -/
theorem Voting.wins {b : Record members} {id p : NodeId} {n n' : Node} {eff : Effects} {i : Input}
    {s : Seeds} {es : Entries} {commit : ℕ} (hv : Voting b id n) (hid : id ∈ members)
    (hplace : n.Placed members id) (hmem : p ∈ members) (hpid : p ≠ id)
    (hown : b.vote n.persistent.term id = some id)
    (hp : b.vote n.persistent.term p = some id ∨ b.leader n.persistent.term = some id)
    (hlead : n.volatile.status ≠ .leader)
    (hquorum : 1 + (insert p n.volatile.tally).card > n.volatile.clusterSize / 2)
    (hterm : n'.persistent.term = n.persistent.term) (hstatus : n'.volatile.status = .leader)
    (htally : n'.volatile.tally = ∅) (hvotes : eff.voteReqs = [])
    (hreqs : eff.entriesReqs = s.sendAppendEntries es n.persistent.term commit)
    (hans : ∀ b' : Record members, Answered b' id eff i) :
    ∃ b', Grows id n n' b b' ∧ Voting b' id n' ∧ Answered b' id eff i ∧
      ∀ p ∈ eff.packets id, Backed b' p := by
  have hcount := hv.count hmem hpid hown (hv.vote_of_granted hlead hp)
  have hmaj : Majority members.toFinset (insert id (insert p n.volatile.tally)) :=
    majority_of_quorum hplace hid
      (fun q hq => ⟨(hcount.tally q hq).1, (hcount.tally q hq).2.1⟩) hquorum
  have hvoters : ∀ q ∈ insert id (insert p n.volatile.tally),
      b.vote n.persistent.term q = some id := by
    intro q hq
    rcases Finset.mem_insert.1 hq with rfl | hq
    · exact hown
    · exact hcount.vote_of_tally hown hq
  have hfree : b.leader n.persistent.term = none := hv.leader_free hlead hmaj hvoters
  refine ⟨b.elect n.persistent.term id _ hmaj hvoters, ⟨.elect b hmaj hvoters, ?_⟩,
    hv.elect hown hmaj hvoters hterm hstatus htally, hans _, ?_⟩
  · intro t
    by_cases ht : t = n.persistent.term
    · exact Or.inr ⟨ht ▸ hfree, ht.trans hterm.symm, hlead, hstatus⟩
    · exact Or.inl (Function.update_of_ne ht _ _)
  · intro q hq
    exact backed_entriesReqs (b.elect_leader_self hmaj hvoters) hvotes hreqs hq

/-- **Every turn keeps what the record knows of the node**, with a record that may
have grown by a vote or an election of this node, and what it sends is backed. -/
theorem Voting.turned {b : Record members} {id : NodeId} {env : Env} {n n' : Node} {i : Input}
    {eff : Effects} (hv : Voting b id n) (hid : id ∈ members)
    (hplace : n.Placed members id) (hexp : Expected b id i) (hcond : ElectsOnce env n i)
    (ht : n.Turned env i n' eff) :
    ∃ b', Grows id n n' b b' ∧ Voting b' id n' ∧ Answered b' id eff i ∧
      ∀ p ∈ eff.packets id, Backed b' p := by
  cases ht with
  | idle quiet silent =>
      refine hv.same ?_ silent.1 silent.2.1
      unfold Answered
      split
      · exact quiet.elim
      · trivial
  | heartbeat _ lead =>
      refine ⟨b, .refl _ _ _ b, hv.congr rfl rfl rfl rfl, trivial, ?_⟩
      intro p hp
      exact backed_entriesReqs (hv.leads lead) rfl rfl hp
  | candidacy due =>
      have hterm := Node.switchToCandidate_term env (hcond.termFits due)
      have hlt : n.persistent.term < (n.switchToCandidate env).1.persistent.term := by omega
      have hfree := hv.vote_eq_none hlt
      refine ⟨_, .cast hfree, hv.run hfree hlt rfl (hcond.startsClean due), trivial, ?_⟩
      intro p hp
      rcases Effects.mem_packets.1 hp with ⟨x, hx, rfl⟩ | ⟨x, hx, _⟩
      · rw [(Seeds.mem_requestVote hx).2]
        exact b.cast_vote_self hfree
      · simp at hx
  | voteStale => exact hv.same (answered_false rfl) rfl rfl
  | @voteGranted term cand lli llt le free log =>
      have hfollow : n.persistent.term = term → n.volatile.status = .follower := by
        intro heq
        exact hcond.votesOnce heq.symm (Or.inl (free.resolve_left (by omega))) log
      have hlead : n.persistent.term = term → n.volatile.status ≠ .leader := by
        intro heq
        simp [hfollow heq]
      have hreply : ∀ t, some (term, true) = some (t, true) → t = term := by
        intro t ht
        exact (Prod.mk.inj (Option.some.inj ht)).1.symm
      exact hv.granted hexp (hv.vote_free le free hfollow) le hlead rfl rfl rfl rfl hreply rfl rfl
  | @voteRefused term cand lli llt le free log =>
      refine Voting.same ?_ (answered_false rfl) rfl rfl
      rcases le.eq_or_lt with heq | hlt
      · exact hv.congr heq.symm rfl rfl rfl
      · have hlead : n.volatile.status ≠ .leader := fun hl => log (hcond.stepsDown hlt hl)
        exact hv.raise hlt hlead rfl
  | @voteRepeated term cand lli llt eq voted =>
      subst eq
      by_cases hgrant : n.volatile.votedFor = some cand ∧ n.LogUpTo lli llt
      · have hfollow : n.volatile.status = .follower :=
          hcond.votesOnce rfl (Or.inr hgrant.1) hgrant.2
        -- the vote is the recorded one, goes to the leader of the term, or is new
        cases hvote : b.vote n.persistent.term id with
        | some c =>
            refine hv.same ?_ rfl rfl
            intro t hreply
            obtain ⟨rfl, _⟩ := Prod.mk.inj (Option.some.inj hreply)
            exact ⟨hexp.2, hv.vote_repeated hvote hfollow hgrant.1⟩
        | none =>
            refine hv.granted hexp hvote le_rfl ?_ rfl hfollow hgrant.1 rfl ?_ rfl rfl
            · intro _
              simp [hfollow]
            · intro t hreply
              exact (Prod.mk.inj (Option.some.inj hreply)).1.symm
      · have hrefused : decide (n.volatile.votedFor = some cand ∧ n.LogUpTo lli llt) = false :=
          decide_eq_false hgrant
        exact hv.same (answered_false (by rw [hrefused])) rfl rfl
  | outrun _ lt => exact Voting.same (hv.raise lt (by simp) rfl) trivial rfl rfl
  | counted lead eq =>
      subst eq
      obtain ⟨hmem, hpid, hgranted⟩ := hexp
      obtain ⟨hown, hp⟩ := hgranted rfl
      exact Voting.same (hv.count hmem hpid hown (hv.vote_of_granted lead hp)) trivial rfl rfl
  | @elected p term lead eq quorum =>
      subst eq
      obtain ⟨hmem, hpid, hgranted⟩ := hexp
      obtain ⟨hown, hp⟩ := hgranted rfl
      exact hv.wins hid hplace hmem hpid hown hp lead quorum rfl rfl rfl
        (Node.switchToLeader_voteReqs ..) (Node.switchToLeader_entriesReqs ..) fun _ => trivial
  | entriesStale => exact hv.same trivial rfl rfl
  | entriesUnknown le | entriesEmpty le | entriesStored le =>
      exact Voting.same (hv.follow hexp.1 hexp.2 le rfl rfl rfl) trivial rfl rfl
  | advanced | backedOff | appendRefused | appendStored | appendPending =>
      exact Voting.same (hv.congr rfl rfl rfl rfl) trivial rfl rfl

end

theorem voting_start (cfg : Config) (id : NodeId) (now : ℕ) :
    Voting (.empty : Record cfg.members) id (Node.start id (cfg.seeds id) now) where
  vote_le _ _ h := nomatch h
  remembers _ h := nomatch h
  leads h := absurd ((cfg.start_status id now).symm.trans h) (by decide)
  reign _ h := nomatch h
  tally _ h := absurd h (Finset.notMem_empty _)

/-- The record of the elections, kept up over the runs of a cluster; a turn that ends
with a leader has recorded it. -/
def elections (cfg : Config) : Upkeep cfg ElectsOnce (Record cfg.members) where
  node _ := Voting
  packet _ := Backed
  fact b id t := t.after.volatile.status = .leader → b.leader t.after.persistent.term = some id
  packet_mono hle hp := hp.mono hle
  fact_mono hle hf hl := Ballots.leader_mono hle (hf hl)
  failed _ _ _ _ _ := trivial
  start now := ⟨.empty, fun id => voting_start cfg id (now id)⟩
  turn hid hplace hv horigin hcond ht := by
    obtain ⟨b', hgrows, hv', hans, hsent⟩ :=
      hv.turned hid hplace (expected_of_origin horigin) hcond ht
    refine ⟨b', hgrows.ext.le, hv', fun x m hx hm => hm.extendsBy hgrows.ext hx, hsent, ?_,
      hv'.leads⟩
    rintro p hr rfl rfl _ q hq
    exact Backed.answer hr hans hq

/-- The node `id` leads the term `T` in some state of the run. -/
def EverLeads (cfg : Config) (started : NodeId → ℕ) (h : List (Step Cluster Action)) (id : NodeId)
    (T : ℕ) : Prop :=
  ∃ c, ClusterVisited cfg started h c ∧ (c.nodes id).volatile.status = .leader ∧
    (c.nodes id).persistent.term = T

/-- **At most one leader in a term**, in every run whose calls meet `ElectsOnce`. -/
theorem one_leader_in_term {cfg : Config} {started : NodeId → ℕ} {h : List (Step Cluster Action)}
    {c : Cluster} (hrun : ClusterRun cfg started h c)
    (hcond : ∀ st ∈ h, Cluster.Meets ElectsOnce st) {A B : NodeId} {T : ℕ}
    (hA : EverLeads cfg started h A T) (hB : EverLeads cfg started h B T) : A = B := by
  obtain ⟨b, _, hfact⟩ := (elections cfg).run hrun hcond
  have hleader : ∀ {id}, EverLeads cfg started h id T → b.leader T = some id := by
    rintro id ⟨c₁, hvisit, hlead, rfl⟩
    rcases hrun.visited_cases hvisit id with hstart | ⟨t, ht, hafter⟩
    · rw [hstart, cfg.start_status] at hlead
      simp at hlead
    · have hleads : t.after.volatile.status = .leader →
          b.leader t.after.persistent.term = some id := hfact id t ht
      rw [hafter] at hleads
      exact hleads hlead
  exact Option.some.inj ((hleader hA).symm.trans (hleader hB))

/-- The first election. -/
theorem one_leader_first_election : ∃ h c, ClusterRun .trio (fun _ => 0) h c ∧
    EverLeads .trio (fun _ => 0) h (localhost 2113) 1 ∧
      ∀ id, EverLeads .trio (fun _ => 0) h id 1 → id = localhost 2113 := by
  obtain ⟨h, c, hrun, ⟨hcond, st, hst, hlead⟩⟩ := ClusterRun.exists_of_replay .trio firstElection
    (fun h _ => (∀ st ∈ h, Cluster.Meets ElectsOnce st) ∧ ∃ st ∈ h,
      (st.after.nodes (localhost 2113)).volatile.status = .leader ∧
        (st.after.nodes (localhost 2113)).persistent.term = 1) (by decide +kernel)
  have hA : EverLeads .trio (fun _ => 0) h (localhost 2113) 1 := ⟨_, Or.inr ⟨st, hst, rfl⟩, hlead⟩
  exact ⟨h, c, hrun, hA, fun id hid => one_leader_in_term hrun hcond hid hA⟩

/-- A node wins, forgets its vote, and votes for its rival: both lead the first term. -/
theorem two_leaders_in_term : ∃ h c A B, ClusterRun .trio (fun _ => 0) h c ∧
    EverLeads .trio (fun _ => 0) h A 1 ∧ EverLeads .trio (fun _ => 0) h B 1 ∧ A ≠ B := by
  obtain ⟨h, c, hrun, ⟨st, hst, hA⟩, st', hst', hB⟩ :=
    ClusterRun.exists_of_replay .trio rivals
      (fun h _ => (∃ st ∈ h, (st.after.nodes (localhost 2113)).volatile.status = .leader ∧
          (st.after.nodes (localhost 2113)).persistent.term = 1) ∧
        ∃ st ∈ h, (st.after.nodes (localhost 2114)).volatile.status = .leader ∧
          (st.after.nodes (localhost 2114)).persistent.term = 1) (by decide +kernel)
  exact ⟨h, c, localhost 2113, localhost 2114, hrun, ⟨_, Or.inr ⟨st, hst, rfl⟩, hA⟩,
    ⟨_, Or.inr ⟨st', hst', rfl⟩, hB⟩, by decide⟩

end Safety
end RaftPlayground
