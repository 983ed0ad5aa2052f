/-
# One vote a term

`voted_for` is written in five places, and three of them forget the vote cast in
the current term.  In the runs where no turn is a vote in a term the node led or
ran in (`VotesOnce`), nor a vote for the node it follows (`KeepsVote`), every
vote granted in a term went to one candidate, and none was granted in a term the
node ran in itself.

The invariant reads the past off the state: after a vote or a candidacy in the
current term the node is no follower, or `voted_for` still holds the vote, or it
holds the leader the node follows.  It is about one node under any inputs, so it
is proved for `NodeRun` and carried to a cluster by `ClusterRun.turns_run`.
-/

import RaftPlayground.Safety.Conditions
import RaftPlayground.Server.Move

namespace RaftPlayground
namespace Safety

open Protocol Server

/-- The turn ran the node for the term: `switch_to_candidate` set its term to `T`. -/
def Runs (t : Step Node Turn) (T : ℕ) : Prop :=
  t.act.input = .tick ∧ t.before.Campaigns t.act.env ∧ t.after.persistent.term = T

instance (t : Step Node Turn) (T : ℕ) : Decidable (Runs t T) :=
  inferInstanceAs (Decidable (_ ∧ _ ∧ _))

/-- The turn is a call of `on_request_vote` for the candidate that returned `(T, true)`. -/
def Grants (t : Step Node Turn) (T : ℕ) (cand : NodeId) : Prop :=
  ∃ term lli llt, t.act.input = .msg (.requestVote term cand lli llt) ∧
    t.act.effects.reply = some (T, true)

/-- The node ran for the term in one of the turns. -/
def Ran (ts : List (Step Node Turn)) (T : ℕ) : Prop := ∃ t ∈ ts, Runs t T

instance (ts : List (Step Node Turn)) (T : ℕ) : Decidable (Ran ts T) :=
  inferInstanceAs (Decidable (∃ t ∈ ts, _))

/-- The node granted its vote in the term in one of the turns. -/
def Granted (ts : List (Step Node Turn)) (T : ℕ) (cand : NodeId) : Prop :=
  ∃ t ∈ ts, Grants t T cand

theorem ran_cons {t : Step Node Turn} {ts : List (Step Node Turn)} {T : ℕ} :
    Ran (t :: ts) T ↔ Runs t T ∨ Ran ts T := by
  simp only [Ran, List.mem_cons, or_and_right, exists_or, exists_eq_left]

theorem granted_cons {t : Step Node Turn} {ts : List (Step Node Turn)} {T : ℕ} {cand : NodeId} :
    Granted (t :: ts) T cand ↔ Grants t T cand ∨ Granted ts T cand := by
  simp only [Granted, List.mem_cons, or_and_right, exists_or, exists_eq_left]

/-- The conditions on a turn under which a node votes once a term. -/
structure VotesOneWay (env : Env) (n : Node) (i : Input) : Prop where
  votesOnce : VotesOnce n i
  keepsVote : KeepsVote n i
  termFits : TermFits env n i

instance (env : Env) (n : Node) (i : Input) : Decidable (VotesOneWay env n i) :=
  decidable_of_iff (VotesOnce n i ∧ KeepsVote n i ∧ TermFits env n i)
    ⟨fun h => ⟨h.1, h.2.1, h.2.2⟩, fun h => ⟨h.1, h.2, h.3⟩⟩

/-- `voted_for` holds the leader the node follows, as `on_append_entries` leaves it. -/
def Follows (n : Node) : Prop :=
  ∃ y, n.volatile.votedFor = some y ∧ n.volatile.leader = some y

/-- What is left, in the state, of a candidacy in the current term. -/
def RemembersRun (n : Node) : Prop := n.volatile.status ≠ .follower ∨ Follows n

/-- What is left, in the state, of a vote for the candidate in the current term. -/
def RemembersVote (n : Node) (cand : NodeId) : Prop :=
  n.volatile.votedFor = some cand ∨ RemembersRun n

/-- What the turns taken left behind in the node, and that they voted one way. -/
structure Faithful (ts : List (Step Node Turn)) (n : Node) : Prop where
  granted_le : ∀ T cand, Granted ts T cand → T ≤ n.persistent.term
  ran_le : ∀ T, Ran ts T → T ≤ n.persistent.term
  granted : ∀ cand, Granted ts n.persistent.term cand → RemembersVote n cand
  ran : Ran ts n.persistent.term → RemembersRun n
  once : ∀ T cand cand', Granted ts T cand → Granted ts T cand' → cand = cand'
  alone : ∀ T cand, Ran ts T → ¬ Granted ts T cand

section

variable {ts : List (Step Node Turn)} {n n' : Node} {turn : Turn}

/-- The memory of the current term does not shrink. -/
structure Recalls (n n' : Node) : Prop where
  le : n.persistent.term ≤ n'.persistent.term
  vote : n.persistent.term = n'.persistent.term → ∀ cand, RemembersVote n cand →
    RemembersVote n' cand
  run : n.persistent.term = n'.persistent.term → RemembersRun n → RemembersRun n'

/-- The memory is the same where term, status, vote and leader are. -/
theorem Recalls.congr (hterm : n'.persistent.term = n.persistent.term)
    (hstatus : n'.volatile.status = n.volatile.status)
    (hvote : n'.volatile.votedFor = n.volatile.votedFor)
    (hleader : n'.volatile.leader = n.volatile.leader) : Recalls n n' where
  le := hterm.ge
  vote _ cand h := by
    unfold RemembersVote RemembersRun Follows
    rw [hstatus, hvote, hleader]
    exact h
  run _ h := by
    unfold RemembersRun Follows
    rw [hstatus, hvote, hleader]
    exact h

/-- A new term has no memory to keep. -/
theorem Recalls.of_lt (h : n.persistent.term < n'.persistent.term) : Recalls n n' where
  le := h.le
  vote heq := absurd heq h.ne
  run heq := absurd heq h.ne

/-- A node that does not follow, or follows its leader, remembers anything. -/
theorem Recalls.of_run (hle : n.persistent.term ≤ n'.persistent.term) (h : RemembersRun n') :
    Recalls n n' where
  le := hle
  vote _ _ _ := Or.inr h
  run _ _ := h

/-- A turn that neither votes nor runs. -/
theorem Faithful.quiet (h : Faithful ts n) (hkeep : Recalls n n')
    (hgrant : ∀ T cand, ¬ Grants ⟨n, turn, n'⟩ T cand) (hrun : ∀ T, ¬ Runs ⟨n, turn, n'⟩ T) :
    Faithful (⟨n, turn, n'⟩ :: ts) n' := by
  have hg : ∀ {T cand}, Granted (⟨n, turn, n'⟩ :: ts) T cand → Granted ts T cand :=
    fun hg => (granted_cons.1 hg).resolve_left (hgrant _ _)
  have hr : ∀ {T}, Ran (⟨n, turn, n'⟩ :: ts) T → Ran ts T :=
    fun hr => (ran_cons.1 hr).resolve_left (hrun _)
  constructor
  case granted_le =>
    intro T cand h'
    have hle := h.granted_le T cand (hg h')
    have hle' := hkeep.le
    omega
  case ran_le =>
    intro T h'
    have hle := h.ran_le T (hr h')
    have hle' := hkeep.le
    omega
  case granted =>
    intro cand h'
    have heq : n.persistent.term = n'.persistent.term := by
      have hle := h.granted_le _ cand (hg h')
      have hle' := hkeep.le
      omega
    exact hkeep.vote heq cand (h.granted cand (heq ▸ hg h'))
  case ran =>
    intro h'
    have heq : n.persistent.term = n'.persistent.term := by
      have hle := h.ran_le _ (hr h')
      have hle' := hkeep.le
      omega
    exact hkeep.run heq (h.ran (heq ▸ hr h'))
  case once =>
    intro T cand cand' h₁ h₂
    exact h.once T cand cand' (hg h₁) (hg h₂)
  case alone =>
    intro T cand h₁ h₂
    exact h.alone T cand (hr h₁) (hg h₂)

/-- A turn that may vote for the candidate, where the memory of the current term
has no other vote and no candidacy. -/
theorem Faithful.vote (h : Faithful ts n) {cand : NodeId}
    (hle : n.persistent.term ≤ n'.persistent.term)
    (hgrant : ∀ T cand', Grants ⟨n, turn, n'⟩ T cand' → T = n'.persistent.term ∧ cand' = cand)
    (hrun : ∀ T, ¬ Runs ⟨n, turn, n'⟩ T) (hvote : n'.volatile.votedFor = some cand)
    (hfresh : n.persistent.term = n'.persistent.term →
      (∀ cand', n.volatile.votedFor = some cand' → cand' = cand) ∧ ¬ RemembersRun n) :
    Faithful (⟨n, turn, n'⟩ :: ts) n' := by
  have hr : ∀ {T}, Ran (⟨n, turn, n'⟩ :: ts) T → Ran ts T :=
    fun hr => (ran_cons.1 hr).resolve_left (hrun _)
  -- an older vote in the term of this turn is one for the same candidate
  have hold : ∀ {cand'}, Granted ts n'.persistent.term cand' → cand' = cand := by
    intro cand' h'
    have heq := le_antisymm hle (h.granted_le _ cand' h')
    obtain ⟨hsame, hidle⟩ := hfresh heq
    exact hsame cand' ((h.granted cand' (heq ▸ h')).resolve_right hidle)
  have hnew : ∀ {T}, Ran ts T → T ≠ n'.persistent.term := by
    rintro T h' rfl
    have heq := le_antisymm hle (h.ran_le _ h')
    exact (hfresh heq).2 (h.ran (heq ▸ h'))
  have hg : ∀ {T cand'}, Granted (⟨n, turn, n'⟩ :: ts) T cand' →
      (T = n'.persistent.term ∧ cand' = cand) ∨ Granted ts T cand' :=
    fun hg => (granted_cons.1 hg).imp_left (hgrant _ _)
  constructor
  case granted_le =>
    intro T cand' h'
    rcases hg h' with ⟨rfl, _⟩ | h'
    · exact le_rfl
    · have hle' := h.granted_le T cand' h'
      omega
  case ran_le =>
    intro T h'
    have hle' := h.ran_le T (hr h')
    omega
  case granted =>
    intro cand' h'
    rcases hg h' with ⟨_, rfl⟩ | h'
    · exact Or.inl hvote
    · exact Or.inl (hold h' ▸ hvote)
  case ran =>
    intro h'
    exact absurd rfl (hnew (hr h'))
  case once =>
    intro T c c' h₁ h₂
    rcases hg h₁ with ⟨rfl, rfl⟩ | h₁ <;> rcases hg h₂ with ⟨hT, rfl⟩ | h₂
    · rfl
    · exact (hold h₂).symm
    · exact hold (hT ▸ h₁)
    · exact h.once T c c' h₁ h₂
  case alone =>
    intro T cand' h₁ h₂
    rcases hg h₂ with ⟨rfl, _⟩ | h₂
    · exact hnew (hr h₁) rfl
    · exact h.alone T cand' (hr h₁) h₂

/-- A turn that runs the node in a new term. -/
theorem Faithful.run (h : Faithful ts n) (hlt : n.persistent.term < n'.persistent.term)
    (hgrant : ∀ T cand, ¬ Grants ⟨n, turn, n'⟩ T cand) (hmem : RemembersRun n') :
    Faithful (⟨n, turn, n'⟩ :: ts) n' := by
  have hg : ∀ {T cand}, Granted (⟨n, turn, n'⟩ :: ts) T cand → Granted ts T cand :=
    fun hg => (granted_cons.1 hg).resolve_left (hgrant _ _)
  constructor
  case granted_le =>
    intro T cand h'
    have hle := h.granted_le T cand (hg h')
    omega
  case ran_le =>
    intro T h'
    rcases ran_cons.1 h' with ⟨_, _, rfl⟩ | h'
    · exact le_rfl
    · have hle := h.ran_le T h'
      omega
  case granted => exact fun cand _ => Or.inr hmem
  case ran => exact fun _ => hmem
  case once =>
    intro T cand cand' h₁ h₂
    exact h.once T cand cand' (hg h₁) (hg h₂)
  case alone =>
    intro T cand h₁ h₂
    rcases ran_cons.1 h₁ with ⟨_, _, rfl⟩ | h₁
    · -- no vote was granted in a term the node had not reached
      have hreached : n'.persistent.term ≤ n.persistent.term := h.granted_le _ cand (hg h₂)
      omega
    · exact h.alone T cand h₁ (hg h₂)

/-- A turn that replies nothing, or refuses, grants nothing. -/
theorem not_grants_of_refusal {before after : Node} {env : Env} {i : Input} {eff : Effects}
    (h : eff.reply = none ∨ ∃ t, eff.reply = some (t, false)) (T : ℕ) (cand : NodeId) :
    ¬ Grants ⟨before, ⟨env, i, eff⟩, after⟩ T cand := by
  rintro ⟨_, _, _, _, hreply⟩
  rcases h with h | ⟨t, h⟩ <;> cases h.symm.trans hreply

/-- A vote goes to who asked for it, in the term of the reply. -/
theorem grants_requestVote {before after : Node} {env : Env} {eff : Effects}
    {term t lli llt : ℕ} {cand : NodeId} {granted : Bool} (h : eff.reply = some (t, granted))
    (T : ℕ) (cand' : NodeId)
    (hgrants : Grants ⟨before, ⟨env, .msg (.requestVote term cand lli llt), eff⟩, after⟩ T cand') :
    T = t ∧ cand' = cand := by
  obtain ⟨_, _, _, hi, hreply⟩ := hgrants
  cases hi
  exact ⟨(Prod.mk.inj (Option.some.inj (h.symm.trans hreply))).1.symm, rfl⟩

theorem not_grants_of_entries {before after : Node} {env : Env} {eff : Effects}
    {term prev prevTerm commit : ℕ} {id : NodeId} {es : List Entry} (T : ℕ) (cand : NodeId) :
    ¬ Grants ⟨before, ⟨env, .msg (.appendEntries term id prev prevTerm commit es), eff⟩, after⟩
      T cand := by
  rintro ⟨_, _, _, hi, _⟩
  simp at hi

theorem not_runs_msg {before after : Node} {env : Env} {m : Msg} {eff : Effects} (T : ℕ) :
    ¬ Runs ⟨before, ⟨env, .msg m, eff⟩, after⟩ T := by
  rintro ⟨hi, _⟩
  simp at hi

/-- **Every turn keeps the memory of the votes.** -/
theorem Faithful.turned {env : Env} {i : Input} {eff : Effects} (h : Faithful ts n)
    (hcond : VotesOneWay env n i) (ht : n.Turned env i n' eff) :
    Faithful (⟨n, ⟨env, i, eff⟩, n'⟩ :: ts) n' := by
  have hsilent : eff.reply = none → ∀ T cand, ¬ Grants ⟨n, ⟨env, i, eff⟩, n'⟩ T cand :=
    fun hr => not_grants_of_refusal (Or.inl hr)
  cases ht with
  | idle quiet silent calm =>
      refine h.quiet (.congr rfl rfl rfl rfl) (hsilent silent.2.2.2) ?_
      rintro T ⟨hi, hdue, _⟩
      exact calm hi hdue
  | heartbeat _ lead =>
      refine h.quiet (.congr rfl rfl rfl rfl) (hsilent rfl) ?_
      rintro T ⟨_, ⟨_, hne, _⟩, _⟩
      exact hne lead
  | candidacy due =>
      have hterm := Node.switchToCandidate_term env (hcond.termFits due)
      exact h.run (by omega) (hsilent rfl) (Or.inl (by simp))
  | voteStale =>
      exact h.quiet (.congr rfl rfl rfl rfl) (not_grants_of_refusal (Or.inr ⟨_, rfl⟩)) not_runs_msg
  | @voteGranted term cand lli llt le free log =>
      refine h.vote le (grants_requestVote rfl) not_runs_msg rfl fun heq => ?_
      have hnone : n.volatile.votedFor = none := free.resolve_left (by exact heq.not_lt)
      have hfollow : n.volatile.status = .follower :=
        hcond.votesOnce heq.symm (Or.inl hnone) log
      have hrun : ¬ RemembersRun n := by
        rintro (hs | ⟨y, hy, _⟩)
        · exact hs hfollow
        · exact Option.some_ne_none y (hy.symm.trans hnone)
      exact ⟨fun cand' hv => absurd (hv.symm.trans hnone) (Option.some_ne_none cand'), hrun⟩
  | voteRefused le free log =>
      refine h.quiet ?_ (not_grants_of_refusal (Or.inr ⟨_, rfl⟩)) not_runs_msg
      rcases le.eq_or_lt with heq | hlt
      · exact .congr heq.symm rfl rfl rfl
      · exact .of_lt hlt
  | @voteRepeated term cand lli llt eq voted =>
      by_cases hgrant : n.volatile.votedFor = some cand ∧ n.LogUpTo lli llt
      · refine h.vote le_rfl (grants_requestVote rfl) not_runs_msg hgrant.1 fun _ => ?_
        have hfollow : n.volatile.status = .follower :=
          hcond.votesOnce eq.symm (Or.inr hgrant.1) hgrant.2
        have hrun : ¬ RemembersRun n := by
          rintro (hs | ⟨y, hy, hl⟩)
          · exact hs hfollow
          · obtain rfl := Option.some.inj (hy.symm.trans hgrant.1)
            exact hcond.keepsVote eq.symm hgrant.2 ⟨hy, hl⟩
        exact ⟨fun cand' hv => Option.some.inj (hv.symm.trans hgrant.1), hrun⟩
      · refine h.quiet (.congr rfl rfl rfl rfl) (not_grants_of_refusal (Or.inr ⟨term, ?_⟩))
          not_runs_msg
        rw [decide_eq_false hgrant, eq]
  | outrun _ lt => exact h.quiet (.of_lt lt) (hsilent rfl) not_runs_msg
  | elected _ eq =>
      exact h.quiet (.of_run le_rfl (Or.inl (by simp))) (hsilent rfl) not_runs_msg
  | entriesStale =>
      exact h.quiet (.congr rfl rfl rfl rfl) not_grants_of_entries not_runs_msg
  | entriesUnknown le | entriesEmpty le | entriesStored le =>
      exact h.quiet (.of_run le (Or.inr ⟨_, rfl, rfl⟩)) not_grants_of_entries not_runs_msg
  | counted | advanced | backedOff | appendRefused | appendStored | appendPending =>
      exact h.quiet (.congr rfl rfl rfl rfl) (hsilent rfl) not_runs_msg

end

theorem Faithful.start (n : Node) : Faithful [] n where
  granted_le _ _ h := absurd h (by simp [Granted])
  ran_le _ h := absurd h (by simp [Ran])
  granted _ h := absurd h (by simp [Granted])
  ran h := absurd h (by simp [Ran])
  once _ _ _ h := absurd h (by simp [Granted])
  alone _ _ h := absurd h (by simp [Ran])

/-- In every run of a node whose turns meet the conditions, the node remembers. -/
theorem faithful_of_run {id : NodeId} {seeds : List Seed} {now : ℕ} {ts : List (Step Node Turn)}
    {n : Node} (hrun : NodeRun id seeds now ts n)
    (hcond : ∀ t ∈ ts, VotesOneWay t.act.env t.before t.act.input) : Faithful ts n :=
  Run.invariant (fun t => VotesOneWay t.act.env t.before t.act.input) Faithful (.start _)
    (fun _ _ _ _ _ h hnext hcond => h.turned hcond (Node.handle_turned hnext)) hrun hcond

/-- **One vote a term**, by every node and in every run whose calls meet
`VotesOneWay`; none at all in a term the node ran in. -/
theorem one_vote_per_term {cfg : Config} {started : NodeId → ℕ} {h : List (Step Cluster Action)}
    {c : Cluster} (hrun : ClusterRun cfg started h c)
    (hcond : ∀ st ∈ h, Cluster.Meets VotesOneWay st) (id : NodeId) (T : ℕ) :
    (∀ a b, Granted (Cluster.turns id h) T a → Granted (Cluster.turns id h) T b → a = b) ∧
      (Ran (Cluster.turns id h) T → ∀ a, ¬ Granted (Cluster.turns id h) T a) := by
  have hf := faithful_of_run (hrun.turns_run id) (Cluster.meets_turns hcond id)
  exact ⟨fun a b => hf.once T a b, fun hr a => hf.alone T a hr⟩

/-- The third node grants its vote in the first election, and the winner grants none. -/
theorem one_vote_first_election : ∃ h c, ClusterRun .trio (fun _ => 0) h c ∧
    Granted (Cluster.turns (localhost 2115) h) 1 (localhost 2113) ∧
      (∀ a, Granted (Cluster.turns (localhost 2115) h) 1 a → a = localhost 2113) ∧
        ∀ a, ¬ Granted (Cluster.turns (localhost 2113) h) 1 a := by
  obtain ⟨h, c, hrun, hcond, hA, t, ht, hgrant⟩ :=
    ClusterRun.exists_of_replay .trio firstElection
      (fun h _ => (∀ st ∈ h, Cluster.Meets VotesOneWay st) ∧
        Ran (Cluster.turns (localhost 2113) h) 1 ∧
          ∃ t ∈ Cluster.turns (localhost 2115) h,
            t.act.input = .msg (.requestVote 1 (localhost 2113) 0 0) ∧
              t.act.effects.reply = some (1, true)) (by decide +kernel)
  have hC : Granted (Cluster.turns (localhost 2115) h) 1 (localhost 2113) :=
    ⟨t, ht, 1, 0, 0, hgrant⟩
  exact ⟨h, c, hrun, hC, fun a ha => (one_vote_per_term hrun hcond _ 1).1 a _ ha hC,
    (one_vote_per_term hrun hcond _ 1).2 hA⟩

/-- A node votes for its rival in the term it ran in, and won. -/
theorem vote_in_own_term : ∃ h c, ClusterRun .trio (fun _ => 0) h c ∧
    Ran (Cluster.turns (localhost 2113) h) 1 ∧
      Granted (Cluster.turns (localhost 2113) h) 1 (localhost 2114) := by
  obtain ⟨h, c, hrun, hA, t, ht, hgrant⟩ :=
    ClusterRun.exists_of_replay .trio rivals
      (fun h _ => Ran (Cluster.turns (localhost 2113) h) 1 ∧
        ∃ t ∈ Cluster.turns (localhost 2113) h,
          t.act.input = .msg (.requestVote 1 (localhost 2114) 0 0) ∧
            t.act.effects.reply = some (1, true)) (by decide +kernel)
  exact ⟨h, c, hrun, hA, t, ht, 1, 0, 0, hgrant⟩

end Safety
end RaftPlayground
