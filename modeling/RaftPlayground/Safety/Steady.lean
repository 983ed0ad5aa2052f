/-
# A leader that is heard stays

Nothing in the handlers makes a leader give up but a term above its own, or a vote request of
its own term, for `reset` forgets the vote the node cast for itself.  Both come from a node that
runs, and a node that does not lead runs when its timer has run out at a tick.  So once the
others have no vote requests of their own in flight (`Settled`), the leader goes on leading for
as long as every tick of another node finds it within the least timeout of a replication
request, and with a timeout drawn (`leader_stays`).

The drawn timeout is no formality: before its first candidacy a node has none, and the first
tick makes it run, whoever leads.
-/

import RaftPlayground.Safety.Timeout
import RaftPlayground.Safety.Terms
import RaftPlayground.Server.Upkeep

namespace RaftPlayground
namespace Safety

open Protocol Server Cluster

/-- A packet in flight that the leader of the term has nothing to fear from. -/
def Followed (leader : NodeId) (T : ℕ) : Packet → Prop
  | .voteReq src _ req => src = leader ∧ req.term ≤ T
  | .voteResp _ dst term granted => term ≤ T ∧ (granted = true → dst = leader)
  | .entriesReq src _ req => req.term ≤ T ∧ (req.term = T → src = leader)
  | .entriesResp .. => True

instance (leader : NodeId) (T : ℕ) : DecidablePred (Followed leader T)
  | .voteReq .. | .voteResp .. | .entriesReq .. => inferInstanceAs (Decidable (_ ∧ _))
  | .entriesResp .. => isTrue trivial

/-- One node leads in the term, and no other member leads, is ahead of it or asks for votes. -/
structure Settled (members : List NodeId) (leader : NodeId) (T : ℕ) (c : Cluster) : Prop where
  leads : (c.nodes leader).volatile.status = .leader
  term_eq : (c.nodes leader).persistent.term = T
  others : ∀ p ∈ members, p ≠ leader →
    (c.nodes p).volatile.status ≠ .leader ∧ (c.nodes p).persistent.term ≤ T
  net : ∀ p ∈ c.net, Followed leader T p

instance (members : List NodeId) (leader : NodeId) (T : ℕ) (c : Cluster) :
    Decidable (Settled members leader T c) :=
  decidable_of_iff
    ((c.nodes leader).volatile.status = .leader ∧ (c.nodes leader).persistent.term = T ∧
      (∀ p ∈ members, p ≠ leader →
        (c.nodes p).volatile.status ≠ .leader ∧ (c.nodes p).persistent.term ≤ T) ∧
      ∀ p ∈ c.net, Followed leader T p)
    ⟨fun h => ⟨h.1, h.2.1, h.2.2.1, h.2.2.2⟩, fun h => ⟨h.1, h.2, h.3, h.4⟩⟩

/-- At a tick, a node other than the leader has a timeout drawn and is within the least one of a
replication request that was not stale. -/
def Attended (leader : NodeId) (past : List (Step Cluster Action)) (st : Step Cluster Action) :
    Prop :=
  match st.act with
  | .tick env id =>
    id ≠ leader → (∃ t ∈ turns id past, Draws t) ∧ ∃ t ∈ turns id past,
      Contacts t.before t.act.input ∧ env.now < t.act.env.now + fromMillis timeoutRange.low
  | _ => True

instance (leader : NodeId) (past : List (Step Cluster Action)) (st : Step Cluster Action) :
    Decidable (Attended leader past st) := by
  unfold Attended
  split <;> infer_instance

/-! ## The timers of a cluster -/

section

variable {cfg : Config} {started : NodeId → ℕ} {h : List (Step Cluster Action)} {c c' : Cluster}
  {a : Action} {id : NodeId}

/-- A call sets the clock, and nothing else does. -/
theorem next_clock (hnext : c.next cfg a c') :
    (∀ k, c.callOf a = some k → c'.clock = k.env.now ∧ c.Admits k.id k.env) ∧
      (c.callOf a = none → c'.clock = c.clock) := by
  unfold Cluster.next at hnext
  cases a with
  | tick env id | deliver env p =>
      simp only [step, Option.ite_none_right_eq_some] at hnext
      obtain ⟨⟨_, henv⟩, hcall⟩ := hnext
      obtain ⟨n, eff, _, rfl⟩ := call_eq_some hcall
      exact ⟨fun k hk => Option.some.inj hk ▸ ⟨rfl, henv⟩,
        fun h => absurd h (Option.some_ne_none _)⟩
  | client env id req =>
      simp only [step, Option.ite_none_right_eq_some, Option.bind_eq_bind,
        Option.bind_eq_some_iff, Option.some.injEq] at hnext
      obtain ⟨⟨_, henv⟩, c₁, hcall, rfl⟩ := hnext
      obtain ⟨n, eff, _, rfl⟩ := call_eq_some hcall
      exact ⟨fun k hk => Option.some.inj hk ▸ ⟨rfl, henv⟩,
        fun h => absurd h (Option.some_ne_none _)⟩
  | lose p | fail p =>
      simp only [step, Option.ite_none_right_eq_some, Option.some.injEq] at hnext
      obtain ⟨_, rfl⟩ := hnext
      exact ⟨fun _ h => absurd h.symm (Option.some_ne_none _), fun _ => rfl⟩

/-- The turns of a node of a cluster are timed, and the clock is never behind them. -/
theorem timed_of_clusterRun (hrun : ClusterRun cfg started h c) (id : NodeId) :
    Guarded (Timed 0) (turns id h) ∧ clock 0 (turns id h) ≤ c.clock := by
  induction hrun with
  | nil => exact ⟨trivial, le_rfl⟩
  | @cons h c a c' hrun hnext ih =>
      obtain ⟨htimed, hle⟩ := ih
      obtain ⟨hcall, hquiet⟩ := next_clock hnext
      have hmono : c.clock ≤ c'.clock := by
        cases hk : c.callOf a with
        | none => exact (hquiet hk).ge
        | some k => exact (hcall k hk).1 ▸ (hcall k hk).2.1
      rcases turnOf_cases hnext id with ⟨hnone, _⟩ | ⟨k, eff, hk, rfl, _, hsome⟩
      · rw [turns, List.filterMap_cons_none hnone]
        exact ⟨htimed, hle.trans hmono⟩
      · obtain ⟨hclock, hnow, hlow, hhigh⟩ := hcall k hk
        have hrange := (timer_of_run (ClusterRun.turns_run hrun k.id)).range
        rw [hrange] at hlow hhigh
        rw [turns, List.filterMap_cons_some hsome]
        exact ⟨⟨⟨hle.trans hnow, hlow, hhigh⟩, htimed⟩, hclock.ge⟩

/-- Once the timer was restarted, the start of the node does not matter. -/
theorem lastRestart_congr {ts : List (Step Node Turn)} (hsome : ∃ t ∈ ts, Restarts t)
    (start start' : ℕ) : lastRestart start ts = lastRestart start' ts := by
  induction ts with
  | nil =>
      obtain ⟨t, ht, _⟩ := hsome
      exact absurd ht List.not_mem_nil
  | cons s ts ih =>
      rw [lastRestart, lastRestart]
      split_ifs with hs
      · rfl
      · refine ih ?_
        obtain ⟨t, ht, hr⟩ := hsome
        rcases List.mem_cons.1 ht with rfl | ht
        · exact absurd hr hs
        · exact ⟨t, ht, hr⟩

/-- A node that is attended does not run. -/
theorem not_campaigns_of_attended {leader : NodeId} {env : Env}
    (hrun : ClusterRun cfg started h c) (hid : id ≠ leader)
    (hattended : Attended leader h ⟨c, .tick env id, c'⟩) : ¬ (c.nodes id).Campaigns env := by
  obtain ⟨hdrawn, t, ht, hcontact, hlt⟩ := hattended hid
  obtain ⟨htimed, _⟩ := timed_of_clusterRun hrun id
  have htimer := timer_of_run (hrun.turns_run id)
  have hrestart : Restarts t := Or.inl hcontact
  have hinstant : t.act.env.now ≤ (c.nodes id).volatile.electionTimeout := by
    rw [htimer.instant, lastRestart_congr ⟨t, ht, hrestart⟩ (started id) 0]
    exact now_le_lastRestart htimed ht hrestart
  have hduration : fromMillis timeoutRange.low ≤
      (c.nodes id).volatile.electionTimeoutRange.duration := by
    rw [htimer.range]
    exact Nat.mul_le_mul_right _ (low_le_lastDrawn htimed hdrawn)
  rintro ⟨_, _, hdue⟩
  have helapsed := of_decide_eq_true hdue
  have hpos : 0 < fromMillis timeoutRange.low := by decide
  omega

end

/-! ## One turn -/

section

variable {members : List NodeId} {leader id : NodeId} {T : ℕ} {env : Env} {n n' : Node}
  {i : Input} {eff : Effects}

/-- No term above that of the leader arrives. -/
theorem comparedTerm_le (hin : Origin members (Followed leader T) id i) {t : ℕ}
    (ht : comparedTerm i = some t) : t ≤ T := by
  cases hin with
  | tick => cases ht
  | client req => cases req <;> cases ht
  | packet p _ _ known =>
      cases p with
      | voteReq => exact Option.some.inj ht ▸ known.2
      | voteResp | entriesReq => exact Option.some.inj ht ▸ known.1
      | entriesResp => cases ht

/-- A leader gets no request of its own term. -/
theorem requestTerm_lt (hin : Origin members (Followed leader T) leader i) {t : ℕ}
    (ht : requestTerm i = some t) : t < T := by
  cases hin with
  | tick => cases ht
  | client req => cases req <;> cases ht
  | packet p routed dst known =>
      cases p with
      | voteReq => exact absurd (known.1.trans dst.symm) routed.ne
      | entriesReq src dst' req =>
          obtain rfl := Option.some.inj ht
          refine lt_of_le_of_ne known.1 fun heq => ?_
          exact absurd ((known.2 heq).trans dst.symm) routed.ne
      | voteResp | entriesResp => cases ht

/-- What a node sends while it does not run is in the name of a leader. -/
theorem followed_of_sends (ht : n.Turned env i n' eff) (hcalm : i = .tick → ¬ n.Campaigns env)
    (hle : n'.persistent.term ≤ T) (hlead : n'.volatile.status = .leader → id = leader) :
    ∀ p ∈ eff.packets id, Followed leader T p := by
  have hvotes : eff.voteReqs = [] := by
    cases ht with
    | idle _ silent => exact silent.1
    | candidacy due => exact absurd due (hcalm rfl)
    | _ => rfl
  intro p hp
  rcases Effects.mem_packets.1 hp with ⟨x, hx, _⟩ | ⟨x, hx, rfl⟩
  · rw [hvotes] at hx
    exact absurd hx List.not_mem_nil
  · obtain ⟨hleads, s, hsend⟩ := ht.sends hx
    obtain ⟨seed, _, rfl⟩ := Seeds.mem_sendAppendEntries hsend
    exact ⟨hle, fun _ => hlead hleads⟩

/-- The term of an answer is that of the node. -/
theorem followed_answer (ht : n.Turned env i n' eff) (hle : n'.persistent.term ≤ T)
    {p : Packet} (hp : i = .msg p.msg) (hknown : Followed leader T p) :
    ∀ q ∈ p.answer eff, Followed leader T q := by
  intro q hq
  cases p with
  | voteReq src dst req =>
      obtain ⟨term, granted, hreply, rfl⟩ := Packet.mem_answer_voteReq.1 hq
      have hterm : requestTerm i = some req.term := hp ▸ rfl
      obtain ⟨hafter, _, hreply'⟩ := answered_turned ht hterm
      obtain ⟨rfl, _⟩ := Prod.mk.inj (Option.some.inj (hreply.symm.trans hreply'))
      exact ⟨hafter ▸ hle, fun _ => hknown.1⟩
  | entriesReq =>
      obtain ⟨_, _, _, rfl⟩ := Packet.mem_answer_entriesReq.1 hq
      trivial
  | voteResp | entriesResp => exact absurd hq List.not_mem_nil

/-- **A turn of the leader** leaves it in its place. -/
theorem leads_turned (hlead : n.volatile.status = .leader) (hterm : n.persistent.term = T)
    (hin : Origin members (Followed leader T) leader i) (ht : n.Turned env i n' eff) :
    n'.volatile.status = .leader ∧ n'.persistent.term = T := by
  cases ht with
  | candidacy due => exact absurd hlead due.2.1
  | voteGranted le | voteRefused le | entriesUnknown le | entriesEmpty le | entriesStored le =>
      exact absurd (requestTerm_lt hin rfl) (hterm ▸ le).not_gt
  | outrun lead | elected lead => exact absurd hlead lead
  | _ => exact ⟨hlead, hterm⟩

/-- **A turn of another node** that does not run leaves it behind the leader. -/
theorem follows_turned (hid : id ≠ leader) (hlead : n.volatile.status ≠ .leader)
    (hterm : n.persistent.term ≤ T) (hin : Origin members (Followed leader T) id i)
    (hcalm : i = .tick → ¬ n.Campaigns env) (ht : n.Turned env i n' eff) :
    n'.volatile.status ≠ .leader ∧ n'.persistent.term ≤ T := by
  constructor
  · intro hleads
    obtain ⟨p, hinput, _⟩ := ht.won hlead hleads
    -- granted votes go to the leader
    rw [hinput] at hin
    generalize hi : Input.msg (.voteReceived p n.persistent.term true) = i' at hin
    cases hin with
    | tick => cases hi
    | client req => cases req <;> cases hi
    | packet q _ dst known =>
        cases q with
        | voteResp src dst' term granted =>
            obtain ⟨rfl, rfl, rfl⟩ := by simpa [Packet.msg] using hi
            exact hid (dst.symm.trans (known.2 rfl))
        | voteReq | entriesReq | entriesResp => simp [Packet.msg] at hi
  · cases ht with
    | candidacy due => exact absurd due (hcalm rfl)
    | voteGranted | voteRefused | outrun | entriesUnknown | entriesEmpty | entriesStored =>
        exact comparedTerm_le hin rfl
    | _ => exact hterm

end

section

variable {cfg : Config} {started : NodeId → ℕ} {leader : NodeId} {T : ℕ}

/-- **One turn** of one node, for the whole cluster. -/
theorem Settled.turned {c c' : Cluster} (h : Settled cfg.members leader T c) {id : NodeId}
    {env : Env} {i : Input} {n : Node} {eff : Effects} (hmem : id ∈ cfg.members)
    (hin : Origin cfg.members (Followed leader T) id i)
    (hcalm : i = .tick → ¬ (c.nodes id).Campaigns env)
    (hhandled : (c.nodes id).handle env i = some (n, eff))
    (hnodes : c'.nodes = Function.update c.nodes id n)
    (hnet : ∀ q ∈ c'.net, q ∈ c.net ∨ q ∈ eff.packets id ∨
      ∃ p ∈ c.net, i = .msg p.msg ∧ q ∈ p.answer eff) : Settled cfg.members leader T c' := by
  have ht := Node.handle_turned hhandled
  have hself : c'.nodes id = n := by rw [hnodes, Function.update_self]
  have hother : ∀ x, x ≠ id → c'.nodes x = c.nodes x := fun x hx => by
    rw [hnodes, Function.update_of_ne hx]
  have hnode : n.persistent.term ≤ T ∧ (n.volatile.status = .leader → id = leader) ∧
      (id = leader → n.volatile.status = .leader ∧ n.persistent.term = T) := by
    by_cases hid : id = leader
    · subst hid
      obtain ⟨hleads, hterm⟩ := leads_turned h.leads h.term_eq hin ht
      exact ⟨hterm.le, fun _ => rfl, fun _ => ⟨hleads, hterm⟩⟩
    · obtain ⟨hlead, hterm⟩ := h.others id hmem hid
      obtain ⟨hfollows, hle⟩ := follows_turned hid hlead hterm hin hcalm ht
      exact ⟨hle, fun hleads => absurd hleads hfollows, fun heq => absurd heq hid⟩
  obtain ⟨hle, hlead, hleader⟩ := hnode
  have hleads : (c'.nodes leader).volatile.status = .leader ∧
      (c'.nodes leader).persistent.term = T := by
    by_cases hid : leader = id
    · rw [hid, hself]
      exact hleader hid.symm
    · rw [hother _ hid]
      exact ⟨h.leads, h.term_eq⟩
  constructor
  case leads => exact hleads.1
  case term_eq => exact hleads.2
  case others =>
    intro x hx hne
    by_cases hid : x = id
    · subst hid
      rw [hself]
      exact ⟨fun hleads => hne (hlead hleads), hle⟩
    · rw [hother x hid]
      exact h.others x hx hne
  case net =>
    intro q hq
    rcases hnet q hq with hq | hq | ⟨p, hp, hinput, hq⟩
    · exact h.net q hq
    · exact followed_of_sends ht hcalm hle hlead q hq
    · exact followed_answer ht hle hinput (h.net p hp) q hq

/-- Nobody runs in a settled cluster, if the others are attended. -/
theorem Settled.not_campaigns {h : List (Step Cluster Action)} {c c' : Cluster} {env : Env}
    {id : NodeId} (hsettled : Settled cfg.members leader T c) (hrun : ClusterRun cfg started h c)
    (hattended : Attended leader h ⟨c, .tick env id, c'⟩) : ¬ (c.nodes id).Campaigns env := by
  by_cases hid : id = leader
  · exact fun hcamp => hcamp.2.1 (hid ▸ hsettled.leads)
  · exact not_campaigns_of_attended hrun hid hattended

/-- **One step** leaves a settled cluster settled, if no tick makes another node run. -/
theorem Settled.next {h : List (Step Cluster Action)} {c c' : Cluster} {a : Action}
    (hrun : ClusterRun cfg started h c) (hsettled : Settled cfg.members leader T c)
    (hnext : c.next cfg a c') (hattended : Attended leader h ⟨c, a, c'⟩) :
    Settled cfg.members leader T c' := by
  cases next_moved hnext with
  | @ticked env id n eff c' member _ handled nodes net =>
      have hin : Origin cfg.members (Followed leader T) id .tick := .tick
      exact hsettled.turned member hin (fun _ => hsettled.not_campaigns hrun hattended) handled
        nodes fun q hq => (net q hq).imp_right Or.inl
  | @requested env id req _ _ _ member _ handled nodes net =>
      have hin : Origin cfg.members (Followed leader T) id (.msg (req.msg c.requests)) :=
        .client _ _
      exact hsettled.turned member hin (fun hi => by cases hi) handled nodes fun q hq =>
        (net q hq).imp_right Or.inl
  | delivered flight _ handled nodes net =>
      have hrouted := ClusterRun.routed hrun _ flight
      have hin := Origin.packet _ hrouted rfl (hsettled.net _ flight)
      refine hsettled.turned hrouted.dst_mem hin (fun hi => by cases hi) handled nodes
        fun q hq => ?_
      rcases net q hq with hq | hq | hq
      · exact Or.inl hq
      · exact Or.inr (Or.inr ⟨_, flight, rfl, hq⟩)
      · exact Or.inr (Or.inl hq)
  | dropped _ nodes net =>
      refine ⟨nodes ▸ hsettled.leads, nodes ▸ hsettled.term_eq, nodes ▸ hsettled.others, ?_⟩
      intro q hq
      rcases net q hq with hq | ⟨_, _, hq⟩
      · exact hsettled.net q hq
      · obtain ⟨src, dst, b, rfl⟩ := mem_failure hq
        trivial

/-- What a leader that is heard gets: it goes on leading in its term, in every state, and nobody
runs. -/
structure Undisturbed (members : List NodeId) (leader : NodeId) (T : ℕ) (c₀ : Cluster)
    (h : List (Step Cluster Action)) : Prop where
  settled : ∀ c, Visited c₀ h c → Settled members leader T c
  unopposed : ∀ id, ∀ t ∈ turns id h, ¬ Campaigned t

/-- **Every run** from a settled cluster ends in one, if the others are attended. -/
theorem Settled.run {h₀ h : List (Step Cluster Action)} {c₀ c : Cluster}
    (hsettled : Settled cfg.members leader T c₀) (hrun₀ : ClusterRun cfg started h₀ c₀)
    (hrun : Run (Cluster.next cfg) c₀ h c)
    (hattended : Guarded (fun past st => Attended leader (past ++ h₀) st) h) :
    Settled cfg.members leader T c := by
  refine Run.history_invariant _ (fun _ c => Settled cfg.members leader T c) hsettled ?_ hrun
    hattended
  intro h c a c' hrun hsettled hnext hattended
  exact hsettled.next (hrun₀.append hrun) hnext hattended

/-- **A leader that is heard stays.**  From a state in which it leads and the others have no vote
requests in flight, over every run in which each tick of another node finds it attended. -/
theorem leader_stays {h₀ h : List (Step Cluster Action)} {c₀ c : Cluster}
    (hrun₀ : ClusterRun cfg started h₀ c₀) (hsettled : Settled cfg.members leader T c₀)
    (hrun : Run (Cluster.next cfg) c₀ h c)
    (hattended : Guarded (fun past st => Attended leader (past ++ h₀) st) h) :
    Undisturbed cfg.members leader T c₀ h := by
  constructor
  case settled =>
    intro c₁ hvisit
    obtain ⟨h', hsuf, hrun'⟩ := hrun.of_visited hvisit
    exact hsettled.run hrun₀ hrun' (hattended.of_suffix hsuf)
  case unopposed =>
    rintro id t ht ⟨hinput, hcamp⟩
    obtain ⟨st, hst, hturn⟩ := List.mem_filterMap.1 ht
    obtain ⟨h', hrun', hsuf, hnext⟩ := hrun.step_of_mem hst
    obtain ⟨hnow, hpast⟩ := hattended.of_suffix hsuf
    obtain ⟨c₁, a, c₂⟩ := st
    rcases turnOf_cases hnext id with ⟨hnone, _⟩ | ⟨k, eff, hk, rfl, _, hsome⟩
    · rw [hnone] at hturn
      cases hturn
    · obtain rfl := Option.some.inj (hsome.symm.trans hturn)
      cases a with
      | tick env id =>
          obtain rfl := Option.some.inj hk
          have hsettled' := hsettled.run hrun₀ hrun' hpast
          exact hsettled'.not_campaigns (hrun₀.append hrun') hnow hcamp
      | client | deliver =>
          obtain rfl := Option.some.inj hk
          cases hinput
      | lose | fail => cases hk

end

/-- The node on port 2114 runs and is not heard; the node on port 2113 runs and wins. -/
def unheardRival : List Action :=
  let A := localhost 2113
  let B := localhost 2114
  let C := localhost 2115
  [.tick ⟨0, 150⟩ B, .lose (.voteReq B A ⟨B, 1, 0, 0⟩), .lose (.voteReq B C ⟨B, 1, 0, 0⟩),
    .tick ⟨1, 150⟩ A, .deliver ⟨2, 150⟩ (.voteReq A C ⟨A, 1, 0, 0⟩),
    .deliver ⟨3, 150⟩ (.voteResp C A 1 true)]

/-- The leader is heard, the rival ticks within its timeout, and so on. -/
def heartbeats : List Action :=
  let A := localhost 2113
  let B := localhost 2114
  let beat : Packet := .entriesReq A B ⟨A, 1, 0, 1, 0, []⟩
  [.deliver ⟨4, 150⟩ beat, .tick ⟨fromMillis 140, 150⟩ B, .tick ⟨fromMillis 141, 150⟩ A,
    .deliver ⟨fromMillis 142, 150⟩ beat, .tick ⟨fromMillis 280, 150⟩ B]

/-- The rival ticks at 280 ms, past its timeout from the start, and does not run. -/
theorem leader_stays_heartbeats : ∃ h₀ c₀ h c, ClusterRun .trio (fun _ => 0) h₀ c₀ ∧
    Run (Cluster.next .trio) c₀ h c ∧
      (h.filter fun st => st.act = .tick ⟨fromMillis 280, 150⟩ (localhost 2114)).length = 1 ∧
        Undisturbed Config.trio.members (localhost 2113) 1 c₀ h := by
  obtain ⟨h₀, c₀, hrun₀, hsettled, hthen⟩ := ClusterRun.exists_of_replay .trio unheardRival
    (fun h₀ c₀ => Settled Config.trio.members (localhost 2113) 1 c₀ ∧
      (replay (Cluster.step .trio) [] c₀ heartbeats).any (fun x => decide
        (Guarded (fun past st => Attended (localhost 2113) (past ++ h₀) st) x.1 ∧
          (x.1.filter fun st =>
            st.act = .tick ⟨fromMillis 280, 150⟩ (localhost 2114)).length = 1)) = true)
    (by decide +kernel)
  obtain ⟨h, c, hrun, hattended, hticks⟩ := Run.exists_of_replay heartbeats
    (fun h _ => Guarded (fun past st => Attended (localhost 2113) (past ++ h₀) st) h ∧
      (h.filter fun st =>
        st.act = .tick ⟨fromMillis 280, 150⟩ (localhost 2114)).length = 1) hthen
  exact ⟨h₀, c₀, h, c, hrun₀, hrun, hticks, leader_stays hrun₀ hsettled hrun hattended⟩

end Safety
end RaftPlayground
