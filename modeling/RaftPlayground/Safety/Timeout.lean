/-
# The election timer

The timer is an instant and a duration.  A node that does not lead runs for the next term
when the duration has passed since the instant.  Two handlers restart the instant:
`on_append_entries` for a request that is not stale, and `on_vote_received` for an answer
of a higher term.  Two draw a duration: `on_vote_received` again, and
`switch_to_candidate`, which leaves the instant alone.  Before the first draw the duration
is zero.

So a candidacy comes too early in two ways: the instant is older than the candidacy before
it, which may have been long ago when that one came, or nothing was drawn yet and the node
runs as soon as it hears of a leader.  `TimerSet` excludes them, and `Waits` is what it
gives for every instant the next tick may come at.
-/

import RaftPlayground.Safety.Progress

namespace RaftPlayground
namespace Safety

open Protocol Server

/-- The range the durations are drawn from, which no handler changes. -/
abbrev timeoutRange : ElectionTimeoutRange := default

/-- The input is a replication request that is not stale. -/
def Contacts (n : Node) : Input → Prop
  | .msg (.appendEntries term ..) => n.persistent.term ≤ term
  | _ => False

instance (n : Node) : ∀ i, Decidable (Contacts n i)
  | .msg (.appendEntries ..) => inferInstanceAs (Decidable (_ ≤ _))
  | .tick | .msg (.requestVote ..) | .msg (.voteReceived ..) | .msg (.appendEntriesResp ..)
  | .msg (.appendStream ..) | .msg (.readStream ..) | .msg .status => isFalse id

/-- The input is the answer to a vote request, of a higher term, at a node that does not
lead. -/
def Outruns (n : Node) : Input → Prop
  | .msg (.voteReceived _ term _) => n.volatile.status ≠ .leader ∧ n.persistent.term < term
  | _ => False

instance (n : Node) : ∀ i, Decidable (Outruns n i)
  | .msg (.voteReceived ..) => inferInstanceAs (Decidable (_ ∧ _))
  | .tick | .msg (.requestVote ..) | .msg (.appendEntries ..) | .msg (.appendEntriesResp ..)
  | .msg (.appendStream ..) | .msg (.readStream ..) | .msg .status => isFalse id

/-- The turn executes `switch_to_candidate`. -/
def Campaigned (t : Step Node Turn) : Prop :=
  t.act.input = .tick ∧ t.before.Campaigns t.act.env

instance (t : Step Node Turn) : Decidable (Campaigned t) := inferInstanceAs (Decidable (_ ∧ _))

/-- The turn restarts the instant of the timer. -/
def Restarts (t : Step Node Turn) : Prop :=
  Contacts t.before t.act.input ∨ Outruns t.before t.act.input

instance (t : Step Node Turn) : Decidable (Restarts t) := inferInstanceAs (Decidable (_ ∨ _))

/-- The turn draws a duration. -/
def Draws (t : Step Node Turn) : Prop := Campaigned t ∨ Outruns t.before t.act.input

instance (t : Step Node Turn) : Decidable (Draws t) := inferInstanceAs (Decidable (_ ∨ _))

/-- The instant of the last turn, or of the start. -/
def clock (start : ℕ) : List (Step Node Turn) → ℕ
  | [] => start
  | t :: _ => t.act.env.now

/-- The instant the timer was restarted last. -/
def lastRestart (start : ℕ) : List (Step Node Turn) → ℕ
  | [] => start
  | t :: ts => if Restarts t then t.act.env.now else lastRestart start ts

/-- The duration drawn last, in milliseconds. -/
def lastDrawn : List (Step Node Turn) → ℕ
  | [] => 0
  | t :: ts => if Draws t then t.act.env.timeout else lastDrawn ts

/-- The clock does not go back, and what is drawn is in the range. -/
def Timed (start : ℕ) (ts : List (Step Node Turn)) (t : Step Node Turn) : Prop :=
  clock start ts ≤ t.act.env.now ∧
    timeoutRange.low ≤ t.act.env.timeout ∧ t.act.env.timeout < timeoutRange.high

instance (start : ℕ) (ts : List (Step Node Turn)) (t : Step Node Turn) :
    Decidable (Timed start ts t) := inferInstanceAs (Decidable (_ ∧ _ ∧ _))

/-- A candidacy at the instant respects the timeout. -/
structure Waits (ts : List (Step Node Turn)) (n : Node) (now : ℕ) : Prop where
  /-- The least timeout has passed since every earlier candidacy, and since every replication
  request that was not stale. -/
  apart : ∀ s ∈ ts, Campaigned s ∨ Contacts s.before s.act.input →
    s.act.env.now + fromMillis n.volatile.electionTimeoutRange.low ≤ now
  /-- The duration drawn has passed since every earlier candidacy. -/
  full : ∀ s ∈ ts, Campaigned s →
    s.act.env.now + n.volatile.electionTimeoutRange.duration ≤ now

instance (ts : List (Step Node Turn)) (n : Node) (now : ℕ) : Decidable (Waits ts n now) :=
  decidable_of_iff
    ((∀ s ∈ ts, Campaigned s ∨ Contacts s.before s.act.input →
        s.act.env.now + fromMillis n.volatile.electionTimeoutRange.low ≤ now) ∧
      ∀ s ∈ ts, Campaigned s →
        s.act.env.now + n.volatile.electionTimeoutRange.duration ≤ now)
    ⟨fun h => ⟨h.1, h.2⟩, fun h => ⟨h.1, h.2⟩⟩

/-- What the timer was last set by leaves no candidacy that comes too early. -/
structure TimerSet (start : ℕ) (ts : List (Step Node Turn)) : Prop where
  /-- The timer was restarted since the last candidacy, or the duration drawn has passed. -/
  restarted : ∀ s ∈ ts, Campaigned s → s.act.env.now ≤ lastRestart start ts ∨
    s.act.env.now + fromMillis (lastDrawn ts) ≤ clock start ts
  /-- A duration was drawn, or the least timeout has passed since the last contact. -/
  drawn : ∀ s ∈ ts, Contacts s.before s.act.input → (∃ r ∈ ts, Draws r) ∨
    s.act.env.now + fromMillis timeoutRange.low ≤ clock start ts

instance (start : ℕ) (ts : List (Step Node Turn)) : Decidable (TimerSet start ts) :=
  decidable_of_iff
    ((∀ s ∈ ts, Campaigned s → s.act.env.now ≤ lastRestart start ts ∨
        s.act.env.now + fromMillis (lastDrawn ts) ≤ clock start ts) ∧
      ∀ s ∈ ts, Contacts s.before s.act.input → (∃ r ∈ ts, Draws r) ∨
        s.act.env.now + fromMillis timeoutRange.low ≤ clock start ts)
    ⟨fun h => ⟨h.1, h.2⟩, fun h => ⟨h.1, h.2⟩⟩

section

variable {start : ℕ} {t : Step Node Turn} {ts : List (Step Node Turn)}

theorem now_le_clock (h : Guarded (Timed start) ts) (ht : t ∈ ts) :
    t.act.env.now ≤ clock start ts := by
  induction ts with
  | nil => exact absurd ht List.not_mem_nil
  | cons s ts ih =>
      rcases List.mem_cons.1 ht with rfl | ht
      · exact le_rfl
      · exact (ih h.2 ht).trans h.1.1

theorem lastRestart_le_clock (h : Guarded (Timed start) ts) :
    lastRestart start ts ≤ clock start ts := by
  induction ts with
  | nil => exact le_rfl
  | cons s ts ih =>
      rw [lastRestart]
      split_ifs
      · exact le_rfl
      · exact (ih h.2).trans h.1.1

/-- No restart is later than the last one. -/
theorem now_le_lastRestart (h : Guarded (Timed start) ts) (ht : t ∈ ts) (hr : Restarts t) :
    t.act.env.now ≤ lastRestart start ts := by
  induction ts with
  | nil => exact absurd ht List.not_mem_nil
  | cons s ts ih =>
      rw [lastRestart]
      rcases List.mem_cons.1 ht with rfl | hmem
      · rw [if_pos hr]
      · split_ifs
        · exact now_le_clock h ht
        · exact ih h.2 hmem

/-- What was drawn is in the range. -/
theorem low_le_lastDrawn (h : Guarded (Timed start) ts) (hd : ∃ r ∈ ts, Draws r) :
    timeoutRange.low ≤ lastDrawn ts := by
  induction ts with
  | nil =>
      obtain ⟨r, hr, _⟩ := hd
      exact absurd hr List.not_mem_nil
  | cons s ts ih =>
      rw [lastDrawn]
      split_ifs with hs
      · exact h.1.2.1
      · refine ih h.2 ?_
        obtain ⟨r, hr, hdraws⟩ := hd
        rcases List.mem_cons.1 hr with rfl | hr
        · exact absurd hdraws hs
        · exact ⟨r, hr, hdraws⟩

theorem lastDrawn_eq_zero (hd : ¬ ∃ r ∈ ts, Draws r) : lastDrawn ts = 0 := by
  induction ts with
  | nil => rfl
  | cons s ts ih =>
      have hs : ¬ Draws s := fun hs => hd ⟨s, List.mem_cons_self, hs⟩
      rw [lastDrawn, if_neg hs]
      exact ih fun ⟨r, hr, hdraws⟩ => hd ⟨r, List.mem_cons_of_mem _ hr, hdraws⟩

end

/-- The timer is the instant of the last restart and the duration drawn last. -/
structure Timer (start : ℕ) (ts : List (Step Node Turn)) (n : Node) : Prop where
  instant : n.volatile.electionTimeout = lastRestart start ts
  range : n.volatile.electionTimeoutRange =
    { timeoutRange with duration := fromMillis (lastDrawn ts) }

section

variable {start : ℕ} {ts : List (Step Node Turn)} {env : Env} {n n' : Node} {i : Input}
  {eff : Effects}

/-- An answer of a higher term sets the timer anew. -/
theorem handle_outruns (hout : Outruns n i) (h : n.handle env i = some (n', eff)) :
    n'.volatile.electionTimeout = env.now ∧
      n'.volatile.electionTimeoutRange =
        n.volatile.electionTimeoutRange.pickTimeoutValue env.timeout := by
  cases i with
  | tick => exact hout.elim
  | msg m =>
      cases m with
      | voteReceived id term granted =>
          obtain ⟨hlead, hlt⟩ := hout
          have hlive : ¬(n.persistent.term > term ∨ n.volatile.status = .leader) :=
            fun h => h.elim hlt.not_gt hlead
          simp only [Node.handle, Node.onVoteReceived, if_neg hlive, if_pos hlt,
            Option.some.injEq, Prod.mk.injEq] at h
          obtain ⟨rfl, _⟩ := h
          exact ⟨rfl, rfl⟩
      | _ => exact hout.elim

/-- A turn that neither restarts the timer nor draws. -/
theorem Timer.kept (h : Timer start ts n) (hr : ¬ Restarts ⟨n, ⟨env, i, eff⟩, n'⟩)
    (hd : ¬ Draws ⟨n, ⟨env, i, eff⟩, n'⟩)
    (hinstant : n'.volatile.electionTimeout = n.volatile.electionTimeout)
    (hrange : n'.volatile.electionTimeoutRange = n.volatile.electionTimeoutRange) :
    Timer start (⟨n, ⟨env, i, eff⟩, n'⟩ :: ts) n' := by
  constructor
  · rw [lastRestart, if_neg hr, hinstant, h.instant]
  · rw [lastDrawn, if_neg hd, hrange, h.range]

/-- A turn that restarts the timer and does not draw. -/
theorem Timer.restarted (h : Timer start ts n) (hr : Restarts ⟨n, ⟨env, i, eff⟩, n'⟩)
    (hd : ¬ Draws ⟨n, ⟨env, i, eff⟩, n'⟩) (hinstant : n'.volatile.electionTimeout = env.now)
    (hrange : n'.volatile.electionTimeoutRange = n.volatile.electionTimeoutRange) :
    Timer start (⟨n, ⟨env, i, eff⟩, n'⟩ :: ts) n' := by
  constructor
  · rw [lastRestart, if_pos hr, hinstant]
  · rw [lastDrawn, if_neg hd, hrange, h.range]

/-- **One turn** sets the timer as the definitions say. -/
theorem Timer.turned (h : Timer start ts n) (hnext : n.handle env i = some (n', eff)) :
    Timer start (⟨n, ⟨env, i, eff⟩, n'⟩ :: ts) n' := by
  by_cases hout : Outruns n i
  · obtain ⟨hinstant, hrange⟩ := handle_outruns hout hnext
    have hr : Restarts ⟨n, ⟨env, i, eff⟩, n'⟩ := Or.inr hout
    have hd : Draws ⟨n, ⟨env, i, eff⟩, n'⟩ := Or.inr hout
    constructor
    · rw [lastRestart, if_pos hr, hinstant]
    · rw [lastDrawn, if_pos hd, hrange, h.range]
      rfl
  · have hr : ¬ Contacts n i → ¬ Restarts ⟨n, ⟨env, i, eff⟩, n'⟩ :=
      fun hcontact hr => hr.elim hcontact hout
    have hd : ¬(i = .tick ∧ n.Campaigns env) → ¬ Draws ⟨n, ⟨env, i, eff⟩, n'⟩ :=
      fun hcamp hd => hd.elim hcamp hout
    have hdraws : i = .tick → n.Campaigns env → Draws ⟨n, ⟨env, i, eff⟩, n'⟩ :=
      fun htick hcamp => Or.inl ⟨htick, hcamp⟩
    cases Node.handle_turned hnext with
    | idle quiet _ calm =>
        refine h.kept (hr fun hc => ?_) (hd fun hc => calm hc.1 hc.2) rfl rfl
        cases i with
        | tick => exact hc
        | msg m => cases m <;> first | exact hc | exact quiet
    | heartbeat _ lead => exact h.kept (hr id) (hd fun hc => hc.2.2.1 lead) rfl rfl
    | candidacy due =>
        constructor
        · rw [lastRestart, if_neg (hr id)]
          exact h.instant
        · rw [lastDrawn, if_pos (hdraws rfl due)]
          simp only [Node.switchToCandidate, ElectionTimeoutRange.pickTimeoutValue, h.range]
    | outrun lead lt => exact absurd ⟨lead, lt⟩ hout
    | entriesStale stale => exact h.kept (hr (not_le.2 stale)) (hd nofun) rfl rfl
    | entriesUnknown le | entriesEmpty le | entriesStored le =>
        exact h.restarted (Or.inl le) (hd nofun) rfl rfl
    | _ => exact h.kept (hr id) (hd nofun) rfl rfl

end

section

variable {id : NodeId} {seeds : List Seed} {start : ℕ} {ts : List (Step Node Turn)} {n : Node}

theorem timer_of_run (hrun : NodeRun id seeds start ts n) : Timer start ts n := by
  induction hrun with
  | nil => exact ⟨rfl, rfl⟩
  | cons _ hnext ih => exact ih.turned hnext

/-- The node runs at the next tick exactly if the timer has run out by then. -/
theorem Timer.campaigns_iff {env : Env} (h : Timer start ts n) (htimed : Guarded (Timed start) ts)
    (hpeers : n.volatile.seeds.isEmpty = false) (hlead : n.volatile.status ≠ .leader)
    (hnow : clock start ts ≤ env.now) :
    n.Campaigns env ↔ lastRestart start ts + fromMillis (lastDrawn ts) ≤ env.now := by
  have hle := lastRestart_le_clock htimed
  have hdue : n.volatile.electionTimeoutElapsed env.now = true ↔
      lastRestart start ts + fromMillis (lastDrawn ts) ≤ env.now := by
    rw [Volatile.electionTimeoutElapsed, decide_eq_true_eq, h.instant, h.range]
    show fromMillis (lastDrawn ts) ≤ env.now - lastRestart start ts ↔ _
    omega
  rw [← hdue]
  exact ⟨fun hc => hc.2.2, fun hc => ⟨hpeers, hlead, hc⟩⟩

/-- A timer that is set has run out early for no candidacy. -/
theorem Timer.waits {now : ℕ} (h : Timer start ts n) (htimed : Guarded (Timed start) ts)
    (hset : TimerSet start ts) (hnow : clock start ts ≤ now)
    (hdue : lastRestart start ts + fromMillis (lastDrawn ts) ≤ now) : Waits ts n now := by
  have hfull : ∀ s ∈ ts, Campaigned s → s.act.env.now + fromMillis (lastDrawn ts) ≤ now := by
    intro s hs hcamp
    rcases hset.restarted s hs hcamp with hle | hle
    · omega
    · omega
  have hlow : (∃ r ∈ ts, Draws r) → fromMillis timeoutRange.low ≤ fromMillis (lastDrawn ts) :=
    fun hd => Nat.mul_le_mul_right _ (low_le_lastDrawn htimed hd)
  constructor
  case apart =>
    intro s hs hearlier
    rw [h.range]
    show s.act.env.now + fromMillis timeoutRange.low ≤ now
    rcases hearlier with hcamp | hcontact
    · have hdrawn := hlow ⟨s, hs, Or.inl hcamp⟩
      have hpassed := hfull s hs hcamp
      omega
    · have hrestart := now_le_lastRestart htimed hs (Or.inl hcontact)
      rcases hset.drawn s hs hcontact with hd | hle
      · have hdrawn := hlow hd
        omega
      · omega
  case full =>
    rw [h.range]
    exact hfull

/-- If whatever comes next waits, the timer is set. -/
theorem Timer.set_of_waits {now : ℕ} (h : Timer start ts n) (htimed : Guarded (Timed start) ts)
    (hnow : now = max (clock start ts) (lastRestart start ts + fromMillis (lastDrawn ts)))
    (hwaits : Waits ts n now) : TimerSet start ts := by
  obtain ⟨hapart, hfull⟩ := hwaits
  rw [h.range] at hapart hfull
  change ∀ s ∈ ts, _ → s.act.env.now + fromMillis timeoutRange.low ≤ now at hapart
  change ∀ s ∈ ts, _ → s.act.env.now + fromMillis (lastDrawn ts) ≤ now at hfull
  constructor
  case restarted =>
    intro s hs hcamp
    have hpassed := hfull s hs hcamp
    omega
  case drawn =>
    intro s hs hcontact
    by_cases hd : ∃ r ∈ ts, Draws r
    · exact Or.inl hd
    · have hpassed := hapart s hs (Or.inr hcontact)
      have hle := lastRestart_le_clock htimed
      have hzero : fromMillis (lastDrawn ts) = 0 := by rw [lastDrawn_eq_zero hd]; rfl
      exact Or.inr (by omega)

end

/-- When the candidacies of a node respect the timeout. -/
structure RunsInTime (start : ℕ) (ts : List (Step Node Turn)) (n : Node) : Prop where
  /-- At whatever instant the next tick comes, a candidacy waits, if and only if the node
  leads or its timer is set. -/
  next : (∀ env, clock start ts ≤ env.now → n.Campaigns env → Waits ts n env.now) ↔
    (n.volatile.status ≠ .leader → TimerSet start ts)
  /-- Every candidacy so far waited, if the timer was set before each. -/
  past : Guarded (fun ts t => Campaigned t → TimerSet start ts) ts →
    Guarded (fun ts t => Campaigned t → Waits ts t.before t.act.env.now) ts

/-- **When candidacies respect the election timeout**, over every run of a node with peers. -/
theorem runs_in_time {id : NodeId} {seeds : List Seed} {start : ℕ} {ts : List (Step Node Turn)}
    {n : Node} (hrun : NodeRun id seeds start ts n) (hseeds : seeds ≠ [])
    (htimed : Guarded (Timed start) ts) : RunsInTime start ts n := by
  constructor
  case next =>
    have htimer := timer_of_run hrun
    have hpeers := isEmpty_of_run hrun hseeds
    constructor
    · intro hwaits hlead
      let now := max (clock start ts) (lastRestart start ts + fromMillis (lastDrawn ts))
      have hnow : clock start ts ≤ now := le_max_left ..
      have hcamp : n.Campaigns ⟨now, timeoutRange.low⟩ :=
        (htimer.campaigns_iff htimed hpeers hlead hnow).2 (le_max_right ..)
      exact htimer.set_of_waits htimed rfl (hwaits ⟨now, timeoutRange.low⟩ hnow hcamp)
    · intro hset env hnow hcamp
      have hlead := hcamp.2.1
      have hdue := (htimer.campaigns_iff htimed hpeers hlead hnow).1 hcamp
      exact htimer.waits htimed (hset hlead) hnow hdue
  case past =>
    clear hseeds
    induction hrun with
    | nil => exact fun _ => trivial
    | @cons ts n t n' hrun _ ih =>
        rintro ⟨hset, hpast⟩
        refine ⟨fun hcamp => ?_, ih htimed.2 hpast⟩
        have htimer := timer_of_run hrun
        have hnow := htimed.1.1
        have hdue := (htimer.campaigns_iff htimed.2 hcamp.2.1 hcamp.2.2.1 hnow).1 hcamp.2
        exact htimer.waits htimed.2 (hset hcamp) hnow hdue

/-- A node runs at once, hears of the leader of its term, and runs again when it has not heard
of it for as long as it drew. -/
def contacted : List Action :=
  let A := localhost 2113
  let B := localhost 2114
  let C := localhost 2115
  [.tick ⟨0, 150⟩ A, .tick ⟨1, 150⟩ B, .deliver ⟨2, 150⟩ (.voteReq A C ⟨A, 1, 0, 0⟩),
    .deliver ⟨3, 150⟩ (.voteResp C A 1 true),
    .deliver ⟨4, 150⟩ (.entriesReq A B ⟨A, 1, 0, 1, 0, []⟩), .tick ⟨150000004, 150⟩ B]

/-- A node runs at its first tick, hears of a leader, and runs again once its timeout is over. -/
theorem runs_in_time_contacted :
    ∃ ts n, NodeRun (localhost 2114) (Config.trio.seeds (localhost 2114)) 0 ts n ∧
      (ts.filter fun t => Campaigned t).length = 2 ∧
      Guarded (fun ts t => Campaigned t → Waits ts t.before t.act.env.now) ts := by
  obtain ⟨h, c, hrun, htimed, htwo, hset⟩ := ClusterRun.exists_of_replay .trio contacted
    (fun h _ => Guarded (Timed 0) (Cluster.turns (localhost 2114) h) ∧
      ((Cluster.turns (localhost 2114) h).filter fun t => Campaigned t).length = 2 ∧
      Guarded (fun ts t => Campaigned t → TimerSet 0 ts) (Cluster.turns (localhost 2114) h))
    (by decide +kernel)
  have hturns := hrun.turns_run (localhost 2114)
  exact ⟨_, _, hturns, htwo, (runs_in_time hturns (by decide) htimed).past hset⟩

/-- A node that hears from nobody runs for one term after the other. -/
def unanswered : List Action :=
  [.tick ⟨0, 150⟩ (localhost 2113), .tick ⟨150000000, 150⟩ (localhost 2113),
    .tick ⟨180000000, 150⟩ (localhost 2113)]

/-- From its second candidacy on, it runs again at every tick. -/
theorem candidacies_in_a_row : ∃ h c, ClusterRun .trio (fun _ => 0) h c ∧
    Guarded (Timed 0) (Cluster.turns (localhost 2113) h) ∧
      ((Cluster.turns (localhost 2113) h).filter fun t => Campaigned t).map
          (fun t => t.act.env.now) = [fromMillis 180, fromMillis 150, 0] ∧
        ¬ Guarded (fun ts t => Campaigned t → Waits ts t.before t.act.env.now)
          (Cluster.turns (localhost 2113) h) :=
  ClusterRun.exists_of_replay .trio unanswered _ (by decide +kernel)

end Safety
end RaftPlayground
