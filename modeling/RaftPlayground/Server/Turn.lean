/-
# What one turn can do

`Node.handle` composes seven handlers with early returns.  `Node.Turned` lists
the ways a turn can end, each with the branch conditions that lead to it and the
state and the effects it leaves; `handle_turned` is the case analysis of the
handlers, done once.  An invariant of a node is then checked against this list.
-/

import RaftPlayground.Server.Node

namespace RaftPlayground
namespace Server

namespace Node

/-- The node's log position passes the check of `on_request_vote`. -/
def LogUpTo (n : Node) (lastLogIndex lastLogTerm : ℕ) : Prop :=
  n.persistent.entries.lastIndex ≤ lastLogIndex ∧ n.persistent.entries.lastTerm ≤ lastLogTerm

instance (n : Node) (lastLogIndex lastLogTerm : ℕ) :
    Decidable (n.LogUpTo lastLogIndex lastLogTerm) :=
  inferInstanceAs (Decidable (_ ∧ _))

/-- A tick at this moment starts an election. -/
def Campaigns (env : Env) (n : Node) : Prop :=
  n.volatile.seeds.isEmpty = false ∧ n.volatile.status ≠ .leader ∧
    n.volatile.electionTimeoutElapsed env.now = true

instance (env : Env) (n : Node) : Decidable (n.Campaigns env) :=
  inferInstanceAs (Decidable (_ ∧ _ ∧ _))

end Node

/-- The inputs that need not be answered and may be ignored. -/
def Input.Quiet : Input → Prop
  | .msg (.requestVote ..) | .msg (.appendEntries ..) | .msg (.appendStream ..) => False
  | _ => True

/-- Nothing is sent to a peer, to a waiting client or to the caller of an RPC. -/
def Effects.Silent (eff : Effects) : Prop :=
  eff.voteReqs = [] ∧ eff.entriesReqs = [] ∧ eff.answers = [] ∧ eff.reply = none

namespace Node

/-- The ways a turn with an input ends: the new state and the effects. -/
inductive Turned (env : Env) (n : Node) : Input → Node → Effects → Prop
  | idle {i eff} (quiet : i.Quiet) (silent : eff.Silent)
      (calm : i = .tick → ¬ n.Campaigns env) : Turned env n i n eff
  | heartbeat (peers : n.volatile.seeds.isEmpty = false) (lead : n.volatile.status = .leader) :
      Turned env n .tick (n.sendAppendEntries env).1
        { entriesReqs := (n.sendAppendEntries env).2 }
  | candidacy (due : n.Campaigns env) :
      Turned env n .tick (n.switchToCandidate env).1 (n.switchToCandidate env).2
  | voteStale {term cand lli llt} (stale : term < n.persistent.term) :
      Turned env n (.msg (.requestVote term cand lli llt)) n
        { reply := some (n.persistent.term, false) }
  | voteGranted {term cand lli llt} (le : n.persistent.term ≤ term)
      (free : n.persistent.term < term ∨ n.volatile.votedFor = none) (log : n.LogUpTo lli llt) :
      Turned env n (.msg (.requestVote term cand lli llt))
        { persistent := { n.persistent with term := term }
          volatile := { n.volatile with votedFor := some cand, status := .follower } }
        { reply := some (term, true) }
  | voteRefused {term cand lli llt} (le : n.persistent.term ≤ term)
      (free : n.persistent.term < term ∨ n.volatile.votedFor = none) (log : ¬ n.LogUpTo lli llt) :
      Turned env n (.msg (.requestVote term cand lli llt))
        { n with persistent := { n.persistent with term := term } }
        { reply := some (term, false) }
  | voteRepeated {term cand lli llt} (eq : n.persistent.term = term)
      (voted : n.volatile.votedFor ≠ none) :
      Turned env n (.msg (.requestVote term cand lli llt)) n
        { reply := some
            (n.persistent.term, decide (n.volatile.votedFor = some cand ∧ n.LogUpTo lli llt)) }
  | outrun {id term granted} (lead : n.volatile.status ≠ .leader)
      (lt : n.persistent.term < term) :
      Turned env n (.msg (.voteReceived id term granted))
        { persistent := { n.persistent with term := term }
          volatile :=
            { n.volatile with
              status := .follower
              leader := some id
              electionTimeoutRange :=
                n.volatile.electionTimeoutRange.pickTimeoutValue env.timeout
              electionTimeout := env.now
              votedFor := none } }
        {}
  | counted {id term} (lead : n.volatile.status ≠ .leader) (eq : n.persistent.term = term) :
      Turned env n (.msg (.voteReceived id term true))
        { n with volatile := { n.volatile with tally := insert id n.volatile.tally } } {}
  | elected {id term} (lead : n.volatile.status ≠ .leader) (eq : n.persistent.term = term)
      (quorum : 1 + (insert id n.volatile.tally).card > n.volatile.clusterSize / 2) :
      Turned env n (.msg (.voteReceived id term true))
        (switchToLeader env
          { n with volatile := { n.volatile with tally := insert id n.volatile.tally } }).1
        (switchToLeader env
          { n with volatile := { n.volatile with tally := insert id n.volatile.tally } }).2
  | entriesStale {term id prev prevTerm commit es} (stale : term < n.persistent.term) :
      Turned env n (.msg (.appendEntries term id prev prevTerm commit es)) n
        { reply := some (n.persistent.term, false) }
  | entriesUnknown {term id prev prevTerm commit es} (le : n.persistent.term ≤ term)
      (unknown : n.persistent.entries.containsLog prev prevTerm = false) :
      Turned env n (.msg (.appendEntries term id prev prevTerm commit es))
        (n.followLeader env term id) { reply := some (term, false) }
  | entriesEmpty {term id prev prevTerm commit} (le : n.persistent.term ≤ term)
      (known : n.persistent.entries.containsLog prev prevTerm = true) :
      Turned env n (.msg (.appendEntries term id prev prevTerm commit []))
        (n.followLeader env term id) { reply := some (term, true) }
  | entriesStored {term id prev prevTerm commit es last stored} (le : n.persistent.term ≤ term)
      (known : n.persistent.entries.containsLog prev prevTerm = true)
      (end_ : es.getLast? = some last)
      (store : (truncated n.persistent.entries term prev prevTerm).append es = some stored) :
      Turned env n (.msg (.appendEntries term id prev prevTerm commit es))
        { persistent := { n.persistent with term := term, entries := stored }
          volatile :=
            { (n.followLeader env term id).volatile with
              commitIndex :=
                if commit > n.volatile.commitIndex then min commit last.index
                else n.volatile.commitIndex } }
        { reply := some (term, true) }
  | advanced {id batchEnd term seeds} (lead : n.volatile.status = .leader)
      (found : n.volatile.seeds.nodeMut id
        (fun seed => { seed with matchIndex := batchEnd, nextIndex := addU64 batchEnd 1 })
        (fun _ => rfl) = some seeds) :
      Turned env n (.msg (.appendEntriesResp id (some batchEnd) (some ⟨term, true⟩)))
        { n with
          volatile :=
            { n.volatile with
              seeds := seeds
              inflights :=
                n.volatile.inflights.filter fun x => ¬ x.1 ≤ seeds.computeLowestReplicatedIndex
              commitIndex := seeds.computeLowestReplicatedIndex } }
        { answers :=
            (n.volatile.inflights.filter fun x =>
              x.1 ≤ seeds.computeLowestReplicatedIndex).map fun x => (x.2, some x.1) }
  | backedOff {id batchEnd term seeds} (lead : n.volatile.status = .leader)
      (found : n.volatile.seeds.nodeMut id
        (fun seed => { seed with nextIndex := seed.nextIndex - 1 }) (fun _ => rfl) = some seeds) :
      Turned env n (.msg (.appendEntriesResp id batchEnd (some ⟨term, false⟩)))
        { n with volatile := { n.volatile with seeds := seeds } } {}
  | appendRefused {streamId events resp} (lead : n.volatile.status ≠ .leader) :
      Turned env n (.msg (.appendStream streamId events resp)) n { answers := [(resp, none)] }
  | appendStored {streamId events resp es index} (lead : n.volatile.status = .leader)
      (store : appendEventsLoop streamId n.persistent.term events
        n.persistent.entries.lastIndex n.persistent.entries = (es, index))
      (alone : n.volatile.seeds.isEmpty = true) :
      Turned env n (.msg (.appendStream streamId events resp))
        { n with persistent := { n.persistent with entries := es } }
        { answers := [(resp, some index)] }
  | appendPending {streamId events resp es index} (lead : n.volatile.status = .leader)
      (store : appendEventsLoop streamId n.persistent.term events
        n.persistent.entries.lastIndex n.persistent.entries = (es, index))
      (peers : n.volatile.seeds.isEmpty = false) :
      Turned env n (.msg (.appendStream streamId events resp))
        { persistent := { n.persistent with entries := es }
          volatile := { n.volatile with inflights := n.volatile.inflights ++ [(index, resp)] } }
        {}

theorem onTick_turned (env : Env) (n : Node) :
    n.Turned env .tick (n.onTick env).1 (n.onTick env).2 := by
  unfold onTick
  split_ifs with hs hl he
  · exact .idle trivial ⟨rfl, rfl, rfl, rfl⟩ fun _ h => Bool.false_ne_true (h.1.symm.trans hs)
  · exact .heartbeat (Bool.not_eq_true _ ▸ hs) hl
  · exact .candidacy ⟨Bool.not_eq_true _ ▸ hs, hl, he⟩
  · exact .idle trivial ⟨rfl, rfl, rfl, rfl⟩ fun _ h => he h.2.2

theorem onRequestVote_turned (env : Env) (n : Node) (term : ℕ) (cand : NodeId) (lli llt : ℕ) :
    n.Turned env (.msg (.requestVote term cand lli llt)) (n.onRequestVote term cand lli llt).1
      { reply := some (n.onRequestVote term cand lli llt).2 } := by
  unfold onRequestVote
  dsimp only
  split_ifs with hstale hfree hlog
  · exact .voteStale hstale
  · exact .voteGranted (not_lt.1 hstale) hfree hlog
  · exact .voteRefused (not_lt.1 hstale) hfree hlog
  · rw [not_or] at hfree
    exact .voteRepeated (le_antisymm (not_lt.1 hstale) (not_lt.1 hfree.1)) hfree.2

theorem onVoteReceived_turned (env : Env) (n : Node) (id : NodeId) (term : ℕ) (granted : Bool) :
    n.Turned env (.msg (.voteReceived id term granted)) (n.onVoteReceived env id term granted).1
      (n.onVoteReceived env id term granted).2 := by
  unfold onVoteReceived
  dsimp only
  split_ifs with hstale hlt hg hq
  · exact .idle trivial ⟨rfl, rfl, rfl, rfl⟩ nofun
  · exact .outrun (not_or.1 hstale).2 hlt
  all_goals
    rw [not_or, not_lt] at hstale
    have heq : n.persistent.term = term := le_antisymm hstale.1 (not_lt.1 hlt)
  · subst hg
    exact .elected hstale.2 heq (of_decide_eq_true hq)
  · subst hg
    exact .counted hstale.2 heq
  · exact .idle trivial ⟨rfl, rfl, rfl, rfl⟩ nofun

theorem onAppendEntries_turned {env : Env} {n n' : Node} {term : ℕ} {id : NodeId}
    {prev prevTerm commit : ℕ} {es : List Entry} {result : ℕ × Bool}
    (h : n.onAppendEntries env term id prev prevTerm commit es = some (n', result)) :
    n.Turned env (.msg (.appendEntries term id prev prevTerm commit es)) n'
      { reply := some result } := by
  unfold onAppendEntries at h
  dsimp only at h
  split at h
  case isTrue hstale =>
    obtain ⟨rfl, rfl⟩ := Prod.mk.inj (Option.some.inj h)
    exact .entriesStale hstale
  case isFalse hfresh =>
    have hle := not_lt.1 hfresh
    split at h
    case isTrue hunknown =>
      obtain ⟨rfl, rfl⟩ := Prod.mk.inj (Option.some.inj h)
      exact .entriesUnknown hle (Bool.not_eq_true _ ▸ hunknown)
    case isFalse hknown =>
      split at h
      case isTrue hempty =>
        obtain ⟨rfl, rfl⟩ := Prod.mk.inj (Option.some.inj h)
        obtain rfl := List.isEmpty_iff.1 hempty
        exact .entriesEmpty hle (not_not.1 hknown)
      case isFalse =>
        simp only [Option.bind_eq_bind, Option.bind_eq_some_iff, Option.some.injEq] at h
        obtain ⟨last, hlast, stored, hstore, h⟩ := h
        obtain ⟨rfl, rfl⟩ := Prod.mk.inj h
        exact .entriesStored hle (not_not.1 hknown) hlast hstore

theorem onAppendEntriesResp_turned {env : Env} {n : Node} {v : Volatile} {id : NodeId}
    {batchEnd : Option ℕ} {resp : Option AppendEntriesResp} {answers : List (Sender × Option ℕ)}
    (h : onAppendEntriesResp n.volatile id batchEnd resp = some (v, answers)) :
    n.Turned env (.msg (.appendEntriesResp id batchEnd resp)) { n with volatile := v }
      { answers } := by
  unfold onAppendEntriesResp at h
  split_ifs at h with hlead
  · obtain ⟨rfl, rfl⟩ := Prod.mk.inj (Option.some.inj h)
    exact .idle trivial ⟨rfl, rfl, rfl, rfl⟩ nofun
  · rw [not_not] at hlead
    rcases resp with _ | ⟨term, success⟩
    · obtain ⟨rfl, rfl⟩ := Prod.mk.inj (Option.some.inj h)
      exact .idle trivial ⟨rfl, rfl, rfl, rfl⟩ nofun
    · cases success
      · simp only [Bool.false_eq_true, if_false, Option.bind_eq_bind, Option.bind_eq_some_iff,
          Option.some.injEq] at h
        obtain ⟨seeds, hseeds, h⟩ := h
        obtain ⟨rfl, rfl⟩ := Prod.mk.inj h
        exact .backedOff hlead hseeds
      · rcases batchEnd with _ | batchEnd
        · obtain ⟨rfl, rfl⟩ := Prod.mk.inj (Option.some.inj h)
          exact .idle trivial ⟨rfl, rfl, rfl, rfl⟩ nofun
        · simp only [if_true, Option.bind_eq_bind, Option.bind_eq_some_iff,
            Option.some.injEq] at h
          obtain ⟨seeds, hseeds, h⟩ := h
          obtain ⟨rfl, rfl⟩ := Prod.mk.inj h
          exact .advanced hlead hseeds

theorem onAppendStream_turned (env : Env) (n : Node) (streamId : String) (events : List Bytes)
    (resp : Sender) :
    n.Turned env (.msg (.appendStream streamId events resp))
      (n.onAppendStream streamId events resp).1
      { answers := (n.onAppendStream streamId events resp).2 } := by
  cases hstore : appendEventsLoop streamId n.persistent.term events
    n.persistent.entries.lastIndex n.persistent.entries with
  | mk es index =>
      simp only [onAppendStream, hstore]
      split_ifs with hlead hs
      · exact .appendRefused hlead
      · exact .appendStored (not_not.1 hlead) hstore hs
      · exact .appendPending (not_not.1 hlead) hstore (Bool.not_eq_true _ ▸ hs)

/-- **The case analysis of the handlers.**  Every turn ends in one of the ways
`Turned` lists. -/
theorem handle_turned {env : Env} {n n' : Node} {i : Input} {eff : Effects}
    (h : n.handle env i = some (n', eff)) : n.Turned env i n' eff := by
  cases i with
  | tick =>
      obtain ⟨rfl, rfl⟩ := Prod.mk.inj (Option.some.inj h)
      exact onTick_turned env n
  | msg m =>
      cases m with
      | requestVote term cand lli llt =>
          obtain ⟨rfl, rfl⟩ := Prod.mk.inj (Option.some.inj h)
          exact onRequestVote_turned env n term cand lli llt
      | appendEntries term id prev prevTerm commit es =>
          simp only [handle, Option.bind_eq_bind, Option.bind_eq_some_iff, Option.some.injEq] at h
          obtain ⟨⟨n₁, result⟩, h₁, h⟩ := h
          obtain ⟨rfl, rfl⟩ := Prod.mk.inj h
          exact onAppendEntries_turned h₁
      | voteReceived id term granted =>
          obtain ⟨rfl, rfl⟩ := Prod.mk.inj (Option.some.inj h)
          exact onVoteReceived_turned env n id term granted
      | appendEntriesResp id batchEnd resp =>
          simp only [handle, Option.bind_eq_bind, Option.bind_eq_some_iff, Option.some.injEq] at h
          obtain ⟨⟨v, answers⟩, h₁, h⟩ := h
          obtain ⟨rfl, rfl⟩ := Prod.mk.inj h
          exact onAppendEntriesResp_turned h₁
      | appendStream streamId events resp =>
          obtain ⟨rfl, rfl⟩ := Prod.mk.inj (Option.some.inj h)
          exact onAppendStream_turned env n streamId events resp
      | readStream streamId =>
          simp only [handle, Option.bind_eq_bind, Option.bind_eq_some_iff, Option.some.injEq] at h
          obtain ⟨batch, _, h⟩ := h
          obtain ⟨rfl, rfl⟩ := Prod.mk.inj h
          exact .idle trivial ⟨rfl, rfl, rfl, rfl⟩ nofun
      | status =>
          obtain ⟨rfl, rfl⟩ := Prod.mk.inj (Option.some.inj h)
          exact .idle trivial ⟨rfl, rfl, rfl, rfl⟩ nofun

/-- The assertion on the batch holds where it is made. -/
theorem onAppendEntries_isSome (env : Env) (n : Node) (term : ℕ) (id : NodeId)
    (prev prevTerm commit : ℕ) (es : List Entry) :
    (n.onAppendEntries env term id prev prevTerm commit es).isSome = true := by
  unfold onAppendEntries
  dsimp only
  by_cases hempty : es.isEmpty = true
  · rw [if_pos hempty]
    split_ifs <;> rfl
  · -- not a heartbeat, so there is a last entry
    have hne : es ≠ [] := fun h => hempty (List.isEmpty_iff.2 h)
    have hlast := List.getLast?_eq_getLast_of_ne_nil hne
    simp only [hlast, Entries.append, Option.bind_eq_bind, Option.bind_some]
    split_ifs <;> rfl

/-- The seed of a peer that answers is found. -/
theorem onAppendEntriesResp_isSome {v : Volatile} {id : NodeId} (hid : id ∈ v.seeds.ids)
    (batchEnd : Option ℕ) (resp : Option AppendEntriesResp) :
    (onAppendEntriesResp v id batchEnd resp).isSome = true := by
  have hfound : ∀ f hf, ∃ seeds, v.seeds.nodeMut id f hf = some seeds :=
    fun f hf => ⟨_, if_pos hid⟩
  unfold onAppendEntriesResp
  split_ifs
  · rfl
  · rcases resp with _ | ⟨term, success⟩
    · rfl
    · cases success
      · obtain ⟨seeds, hseeds⟩ := hfound (fun seed =>
          { seed with nextIndex := seed.nextIndex - 1 }) fun _ => rfl
        simp [hseeds]
      · rcases batchEnd with _ | batchEnd
        · rfl
        · obtain ⟨seeds, hseeds⟩ := hfound (fun seed =>
            { seed with matchIndex := batchEnd, nextIndex := addU64 batchEnd 1 }) fun _ => rfl
          simp [hseeds]

/-- A leader that is told a batch is stored counts it, and leads on. -/
theorem handle_confirms {env : Env} {n n' : Node} {eff : Effects} {id : NodeId}
    {batchEnd term : ℕ} (hlead : n.volatile.status = .leader)
    (h : n.handle env (.msg (.appendEntriesResp id (some batchEnd) (some ⟨term, true⟩))) =
      some (n', eff)) :
    n.volatile.seeds.nodeMut id
        (fun seed => { seed with matchIndex := batchEnd, nextIndex := addU64 batchEnd 1 })
        (fun _ => rfl) = some n'.volatile.seeds ∧
      n'.volatile.status = .leader ∧
      n'.volatile.commitIndex = n'.volatile.seeds.computeLowestReplicatedIndex := by
  simp only [handle, onAppendEntriesResp, hlead, ne_eq, not_true, if_false, if_true,
    Option.bind_eq_bind, Option.bind_eq_some_iff, Option.some.injEq] at h
  obtain ⟨⟨v, answers⟩, ⟨seeds, hseeds, hv⟩, h⟩ := h
  obtain ⟨rfl, rfl⟩ := Prod.mk.inj hv
  obtain ⟨rfl, rfl⟩ := Prod.mk.inj h
  exact ⟨hseeds, rfl, rfl⟩

/-- **A node keeps its place.**  No turn changes its id or the ids of its peers. -/
theorem Turned.place {env : Env} {n n' : Node} {i : Input} {eff : Effects}
    (h : n.Turned env i n' eff) :
    n'.volatile.id = n.volatile.id ∧ n'.volatile.seeds.nodeId = n.volatile.seeds.nodeId ∧
      n'.volatile.seeds.ids = n.volatile.seeds.ids := by
  cases h with
  | elected => exact ⟨rfl, rfl, Seeds.ids_reset _ _⟩
  | advanced _ found | backedOff _ found =>
      exact ⟨rfl, Seeds.nodeId_nodeMut found, Seeds.ids_nodeMut found⟩
  | _ => exact ⟨rfl, rfl, rfl⟩

theorem Turned.clusterSize {env : Env} {n n' : Node} {i : Input} {eff : Effects}
    (h : n.Turned env i n' eff) : n'.volatile.clusterSize = n.volatile.clusterSize := by
  rw [Volatile.clusterSize, Volatile.clusterSize, ← Seeds.length_ids, ← Seeds.length_ids,
    h.place.2.2]

/-- A node wins by a granted vote of its own term that completes its tally. -/
theorem Turned.won {env : Env} {n n' : Node} {i : Input} {eff : Effects}
    (h : n.Turned env i n' eff) (hbefore : n.volatile.status ≠ .leader)
    (hafter : n'.volatile.status = .leader) :
    ∃ p, i = .msg (.voteReceived p n.persistent.term true) ∧
      1 + (insert p n.volatile.tally).card > n.volatile.clusterSize / 2 ∧
        n'.persistent = n.persistent := by
  cases h with
  | @elected p _ _ eq quorum => exact ⟨p, eq ▸ rfl, quorum, rfl⟩
  | candidacy | voteGranted | outrun | entriesUnknown | entriesEmpty | entriesStored =>
      simp at hafter
  | heartbeat _ lead | advanced lead | backedOff lead | appendStored lead | appendPending lead =>
      exact absurd lead hbefore
  | _ => exact absurd hafter hbefore

/-- Replication requests are those of a leader, built from what the turn leaves. -/
theorem Turned.sends {env : Env} {n n' : Node} {i : Input} {eff : Effects}
    (h : n.Turned env i n' eff) {x : NodeId × EntriesReq} (hx : x ∈ eff.entriesReqs) :
    n'.volatile.status = .leader ∧ ∃ s : Seeds,
      x ∈ s.sendAppendEntries n'.persistent.entries n'.persistent.term n'.volatile.commitIndex := by
  cases h with
  | idle _ silent =>
      rw [silent.2.1] at hx
      simp at hx
  | heartbeat _ lead => exact ⟨lead, _, hx⟩
  | elected => exact ⟨rfl, _, hx⟩
  | _ => exact absurd hx List.not_mem_nil

/-- What a leader counts as replicated on a peer is nothing, what it counted before,
or the end of the batch the peer just answered. -/
theorem Turned.matchIndex {env : Env} {n n' : Node} {i : Input} {eff : Effects}
    (h : n.Turned env i n' eff) (hlead : n'.volatile.status = .leader) {seed : Seed}
    (hseed : seed ∈ n'.volatile.seeds.inner) :
    seed.matchIndex = 0 ∨
      n.volatile.status = .leader ∧
        ((∃ x ∈ n.volatile.seeds.inner, x.id = seed.id ∧ x.matchIndex = seed.matchIndex) ∨
          ∃ term, i = .msg (.appendEntriesResp seed.id (some seed.matchIndex)
            (some ⟨term, true⟩))) := by
  cases h with
  | elected =>
      obtain ⟨_, _, rfl⟩ := List.mem_map.1 hseed
      exact Or.inl rfl
  | @advanced id batchEnd term _ lead found =>
      obtain ⟨x, hx, rfl⟩ := Seeds.mem_nodeMut found hseed
      refine Or.inr ⟨lead, ?_⟩
      split_ifs with hid
      · exact Or.inr ⟨term, by rw [← hid]⟩
      · exact Or.inl ⟨x, hx, rfl, rfl⟩
  | backedOff lead found =>
      obtain ⟨x, hx, rfl⟩ := Seeds.mem_nodeMut found hseed
      refine Or.inr ⟨lead, Or.inl ⟨x, hx, ?_⟩⟩
      split_ifs <;> exact ⟨rfl, rfl⟩
  | candidacy | voteGranted | outrun | entriesUnknown | entriesEmpty | entriesStored =>
      simp at hlead
  | _ => exact Or.inr ⟨hlead, Or.inl ⟨seed, hseed, rfl, rfl⟩⟩

/-- Where the log of a node comes from. -/
inductive Logged (n : Node) (i : Input) (n' : Node) : Prop
  | kept (eq : n'.persistent.entries = n.persistent.entries)
      (ignores : n.volatile.status = .leader →
        ∀ streamId events resp, i ≠ .msg (.appendStream streamId events resp))
  | stored {term id prev prevTerm commit es}
      (input : i = .msg (.appendEntries term id prev prevTerm commit es))
      (follows : n'.volatile.status = .follower) (term_eq : n'.persistent.term = term)
      (store : (truncated n.persistent.entries term prev prevTerm).append es =
        some n'.persistent.entries)
  | appended {streamId events resp} (input : i = .msg (.appendStream streamId events resp))
      (lead : n.volatile.status = .leader) (leads : n'.volatile.status = .leader)
      (term_eq : n'.persistent.term = n.persistent.term)
      (store : n'.persistent.entries = (appendEventsLoop streamId n.persistent.term events
        n.persistent.entries.lastIndex n.persistent.entries).1)

/-- **Two handlers write the log**: a follower stores a batch, a leader appends. -/
theorem Turned.logged {env : Env} {n n' : Node} {i : Input} {eff : Effects}
    (h : n.Turned env i n' eff) : n.Logged i n' := by
  cases h with
  | idle quiet =>
      refine .kept rfl fun _ streamId events resp heq => ?_
      rw [heq] at quiet
      exact quiet
  | entriesStored _ _ _ store => exact .stored rfl rfl rfl store
  | appendRefused lead => exact .kept rfl fun hlead => absurd hlead lead
  | appendStored lead store | appendPending lead store =>
      exact .appended rfl lead lead rfl (by rw [store])
  | _ => exact .kept rfl fun _ _ _ _ heq => by simp at heq

/-- Where a commit index comes from. -/
inductive Commits (n : Node) (i : Input) (n' : Node) : Prop
  | kept (eq : n'.volatile.commitIndex = n.volatile.commitIndex)
  | reset (eq : n'.volatile.commitIndex = 0)
  | followed {term id prev prevTerm commit es}
      (input : i = .msg (.appendEntries term id prev prevTerm commit es))
      (le : n'.volatile.commitIndex ≤ commit)
  | counted (lead : n'.volatile.status = .leader)
      (eq : n'.volatile.commitIndex = n'.volatile.seeds.computeLowestReplicatedIndex)

theorem Turned.commits {env : Env} {n n' : Node} {i : Input} {eff : Effects}
    (h : n.Turned env i n' eff) : n.Commits i n' := by
  cases h with
  | elected => exact .reset rfl
  | @entriesStored _ _ _ _ commit =>
      by_cases hgt : commit > n.volatile.commitIndex
      · exact .followed rfl ((if_pos hgt).le.trans (min_le_left ..))
      · exact .kept (if_neg hgt)
  | advanced lead => exact .counted lead rfl
  | _ => exact .kept rfl

/-- **A confirmed request** waited at a leader that counts it on every peer. -/
theorem Turned.confirmed {env : Env} {n n' : Node} {i : Input} {eff : Effects}
    (h : n.Turned env i n' eff) (hpeers : n.volatile.seeds.isEmpty = false) {resp : Sender}
    {index : ℕ} (hans : (resp, some index) ∈ eff.answers) :
    n.volatile.status = .leader ∧ n'.volatile.status = .leader ∧ n'.persistent = n.persistent ∧
      (index, resp) ∈ n.volatile.inflights ∧
        index ≤ n'.volatile.seeds.computeLowestReplicatedIndex := by
  cases h with
  | idle _ silent =>
      rw [silent.2.2.1] at hans
      simp at hans
  | elected =>
      obtain ⟨_, _, heq⟩ := List.mem_map.1 hans
      exact nomatch (Prod.mk.inj heq).2
  | advanced lead =>
      obtain ⟨x, hx, heq⟩ := List.mem_map.1 hans
      obtain ⟨rfl, hindex⟩ := Prod.mk.inj heq
      obtain rfl := Option.some.inj hindex
      obtain ⟨hmem, hle⟩ := List.mem_filter.1 hx
      exact ⟨lead, lead, rfl, hmem, of_decide_eq_true hle⟩
  | appendRefused => exact nomatch (Prod.mk.inj (List.mem_singleton.1 hans)).2
  | appendStored _ _ alone => exact absurd (alone.symm.trans hpeers) (by decide)
  | _ => exact absurd hans List.not_mem_nil

/-- What a confirming leader leaves waiting is not counted on every peer. -/
theorem Turned.waiting {env : Env} {n n' : Node} {i : Input} {eff : Effects}
    (h : n.Turned env i n' eff) (hpeers : n.volatile.seeds.isEmpty = false) {resp : Sender}
    {index : ℕ} (hans : (resp, some index) ∈ eff.answers) {x : ℕ × Sender}
    (hx : x ∈ n'.volatile.inflights) : n'.volatile.seeds.computeLowestReplicatedIndex < x.1 := by
  cases h with
  | idle _ silent =>
      rw [silent.2.2.1] at hans
      simp at hans
  | elected => simp at hx
  | advanced =>
      have hfilter := of_decide_eq_true (List.mem_filter.1 hx).2
      exact not_le.1 hfilter
  | appendRefused => simp at hans
  | appendStored _ _ alone => simp [alone] at hpeers
  | _ => exact absurd hans List.not_mem_nil

/-- A granted vote is one in the term of the request. -/
theorem Turned.granted_term {env : Env} {n n' : Node} {term t lli llt : ℕ} {cand : NodeId}
    {eff : Effects} (h : n.Turned env (.msg (.requestVote term cand lli llt)) n' eff)
    (hreply : eff.reply = some (t, true)) : t = term := by
  cases h with
  | idle quiet => exact quiet.elim
  | voteGranted => exact (Prod.mk.inj (Option.some.inj hreply)).1.symm
  | voteRepeated eq => exact (Prod.mk.inj (Option.some.inj hreply)).1.symm.trans eq
  | voteStale | voteRefused => simp at hreply

end Node

/-- The node is where the configuration puts it, with the other members as peers. -/
structure Node.Placed (members : List NodeId) (id : NodeId) (n : Node) : Prop where
  id_eq : n.volatile.id = id
  nodeId_eq : n.volatile.seeds.nodeId = id
  mem_ids : ∀ x, x ∈ n.volatile.seeds.ids ↔ x ∈ members ∧ x ≠ id

namespace Node

theorem Placed.turned {members : List NodeId} {id : NodeId} {env : Env} {n n' : Node} {i : Input}
    {eff : Effects} (hp : n.Placed members id) (h : n.Turned env i n' eff) :
    n'.Placed members id := by
  obtain ⟨h₁, h₂, h₃⟩ := h.place
  exact ⟨h₁.trans hp.id_eq, h₂.trans hp.nodeId_eq, fun x => by rw [h₃]; exact hp.mem_ids x⟩

end Node

end Server
end RaftPlayground
