/-
# The pace of the loop

The loop keeps the instant of its last tick and ticks again when `HEARTBEAT_DELAY` has passed
since, at the top of a round or after it waited for as long.  So two ticks are never closer
than that, however messages come (`ticks_apart`).

They may be further apart: a message that comes just before the wait is over is handled first,
and a tick that was not due at the top of a round is late by the whole of the wait.  That is
all.  If nothing but the wait takes longer than `δ`, a leader sent its last heartbeat to every
peer no more than twice the delay and `3δ` ago (`heartbeats_in_time`).

The ticks do not hold the messages up.  The loop ticks at most once before it takes the next
message that is there, so one with `k` others before it is handled within `k + 1` rounds, and the
handlers get the messages in the order they were sent (`mail_handled`).
-/

import RaftPlayground.Server.Loop
import RaftPlayground.Safety.Timeout

namespace RaftPlayground
namespace Safety

open Protocol Server

/-- The instants at which `on_tick` was called, the latest first. -/
def tickTimes (ts : List (Step Node Turn)) : List ℕ :=
  (ts.filter fun t => t.act.input = .tick).map fun t => t.act.env.now

/-- The turn sends a replication request to every peer. -/
def Heartbeats (t : Step Node Turn) : Prop :=
  ∀ peer ∈ t.after.volatile.seeds.ids, ∃ req, (peer, req) ∈ t.act.effects.entriesReqs

/-- Apart from the wait of `recv_timeout`, the step takes no longer than `δ`. -/
def Prompt (δ : ℕ) (st : Step Thread Lap) : Prop :=
  match st.act.act with
  | .check .. => st.after.clock ≤ st.before.clock + δ
  | .receive .. | .timeout .. => st.after.clock ≤ st.before.clock + heartbeatDelay + δ
  | .send _ | .disconnect => True

instance (δ : ℕ) : DecidablePred (Prompt δ) := fun st => by
  unfold Prompt
  split <;> infer_instance

section

variable {id : NodeId} {seeds : List Seed} {now : ℕ} {ls : List (Step Thread Lap)} {s s' : Thread}
  {l : Lap}

/-- The turns of a thread are timed, and its clock is never behind them. -/
theorem timed_of_threadRun (hrun : ThreadRun id seeds now ls s) :
    Guarded (Timed now) (Thread.turns ls) ∧ clock now (Thread.turns ls) ≤ s.clock := by
  induction hrun with
  | nil => exact ⟨trivial, le_rfl⟩
  | cons hrun hnext ih =>
      obtain ⟨htimed, hle⟩ := ih
      obtain ⟨hmono, hturn⟩ := Thread.turnOf_cases hnext
      rw [Thread.turns]
      rcases hturn with ⟨hnone, _⟩ | ⟨t, hsome, _, hnow, hdone, hlow, hhigh⟩
      · rw [List.filterMap_cons_none hnone]
        exact ⟨htimed, hle.trans hmono⟩
      · rw [(timer_of_run (ThreadRun.turns_run hrun)).range] at hlow hhigh
        rw [List.filterMap_cons_some hsome]
        exact ⟨⟨⟨hle.trans hnow, hlow, hhigh⟩, htimed⟩, hdone⟩

/-- What the tracker keeps of the ticks. -/
structure Tracked (ls : List (Step Thread Lap)) (s : Thread) : Prop where
  apart : (tickTimes (Thread.turns ls)).Pairwise fun later earlier =>
    earlier + heartbeatDelay ≤ later
  le_tracker : ∀ t ∈ tickTimes (Thread.turns ls), t ≤ s.tickTracker
  tracker_le : s.tickTracker ≤ s.clock

/-- A step without a tick. -/
theorem Tracked.kept {st : Step Thread Lap} (h : Tracked ls s)
    (hquiet : (Thread.turnOf st).all (fun t => t.act.input ≠ .tick) = true)
    (htracker : s'.tickTracker = s.tickTracker) (hclock : s.clock ≤ s'.clock) :
    Tracked (st :: ls) s' := by
  have hsame : tickTimes (Thread.turns (st :: ls)) = tickTimes (Thread.turns ls) := by
    rw [Thread.turns]
    cases ht : Thread.turnOf st with
    | none => rw [List.filterMap_cons_none ht, Thread.turns]
    | some t =>
        rw [List.filterMap_cons_some ht, tickTimes,
          List.filter_cons_of_neg (by simpa using (Option.all_eq_true _ _).1 hquiet t ht)]
        rfl
  constructor
  case apart => exact hsame ▸ h.apart
  case le_tracker => exact hsame ▸ htracker ▸ h.le_tracker
  case tracker_le => exact htracker ▸ h.tracker_le.trans hclock

/-- A tick, once the delay has passed since the tracker was set. -/
theorem Tracked.ticked {st : Step Thread Lap} (h : Tracked ls s) {t : Step Node Turn}
    (ht : Thread.turnOf st = some t) (htick : t.act.input = .tick)
    (hdue : s.tickTracker + heartbeatDelay ≤ t.act.env.now)
    (htracker : t.act.env.now ≤ s'.tickTracker) (hclock : s'.tickTracker ≤ s'.clock) :
    Tracked (st :: ls) s' := by
  have hnew : tickTimes (Thread.turns (st :: ls)) =
      t.act.env.now :: tickTimes (Thread.turns ls) := by
    rw [Thread.turns, List.filterMap_cons_some ht, tickTimes,
      List.filter_cons_of_pos (by simpa using htick)]
    rfl
  have hbefore : ∀ t' ∈ tickTimes (Thread.turns ls), t' + heartbeatDelay ≤ t.act.env.now :=
    fun t' ht' => (Nat.add_le_add_right (h.le_tracker t' ht') _).trans hdue
  constructor
  case apart => exact hnew ▸ List.pairwise_cons.2 ⟨hbefore, h.apart⟩
  case le_tracker =>
    rw [hnew, List.forall_mem_cons]
    exact ⟨htracker, fun t' ht' => (Nat.le_add_right _ _).trans ((hbefore t' ht').trans htracker)⟩
  case tracker_le => exact hclock

theorem tracked_of_run (hrun : ThreadRun id seeds now ls s) : Tracked ls s := by
  induction hrun with
  | nil => exact ⟨List.Pairwise.nil, fun _ ht => absurd ht List.not_mem_nil, le_rfl⟩
  | @cons ls s l s' _ hnext ih =>
      cases Thread.next_moved hnext with
      | sent | disconnected => exact ih.kept rfl rfl le_rfl
      | passed _ le le' => exact ih.kept rfl rfl (le.trans le')
      | stopped _ _ le le' => exact ih.kept rfl rfl (le.trans le')
      | handled _ _ le le' => exact ih.kept rfl rfl (le.trans le')
      | @checked at_ env _ _ _ _ _ le times _ due =>
          obtain ⟨h₁, h₂, h₃⟩ := times
          have hle := ih.tracker_le
          have hdue : s.tickTracker + heartbeatDelay ≤ env.now := by omega
          exact ih.ticked rfl rfl hdue h₂ h₃
      | @timedOut at_ env _ _ _ _ _ late times =>
          have hle := ih.tracker_le
          have hdue : s.tickTracker + heartbeatDelay ≤ env.now := by omega
          exact ih.ticked rfl rfl hdue times.2 le_rfl

/-- **Ticks keep their distance.**  Whatever messages come and however long they take to handle,
two calls of `on_tick` are never closer than the heartbeat delay. -/
theorem ticks_apart (hrun : ThreadRun id seeds now ls s) :
    (tickTimes (Thread.turns ls)).Pairwise fun later earlier => earlier + heartbeatDelay ≤ later :=
  (tracked_of_run hrun).apart

/-- A request to every peer. -/
theorem heartbeats_sendAppendEntries {t : Step Node Turn} {v : Volatile} {es : Entries}
    {term commit : ℕ} (hids : t.after.volatile.seeds.ids = v.seeds.ids)
    (hsent : t.act.effects.entriesReqs = v.seeds.sendAppendEntries es term commit) :
    Heartbeats t := by
  intro peer hpeer
  rw [hids] at hpeer
  obtain ⟨seed, hseed, rfl⟩ := List.mem_map.1 hpeer
  rw [hsent]
  exact ⟨_, List.mem_map_of_mem hseed⟩

/-- A leader with peers sends to all of them when it ticks. -/
theorem heartbeats_of_tick {env : Env} {n n' : Node} {eff : Effects}
    (hpeers : n.volatile.seeds.isEmpty = false) (hnext : n.handle env .tick = some (n', eff))
    (hlead : n'.volatile.status = .leader) : Heartbeats ⟨n, ⟨env, .tick, eff⟩, n'⟩ := by
  have htick : n.onTick env = (n', eff) := Option.some.inj hnext
  unfold Node.onTick at htick
  rw [if_neg (Bool.eq_false_iff.1 hpeers)] at htick
  split_ifs at htick with hbefore hdue
  · obtain ⟨rfl, rfl⟩ := Prod.mk.inj htick
    exact heartbeats_sendAppendEntries rfl rfl
  · obtain ⟨rfl, rfl⟩ := Prod.mk.inj htick
    simp at hlead
  · obtain ⟨rfl, rfl⟩ := Prod.mk.inj htick
    exact absurd hlead hbefore

/-- A node that wins sends to all its peers. -/
theorem heartbeats_of_elected {env : Env} {n n' : Node} {i : Input} {eff : Effects}
    (ht : n.Turned env i n' eff) (hbefore : n.volatile.status ≠ .leader)
    (hlead : n'.volatile.status = .leader) : Heartbeats ⟨n, ⟨env, i, eff⟩, n'⟩ := by
  cases ht with
  | elected =>
      exact heartbeats_sendAppendEntries (v := (Node.switchToLeader env _).1.volatile) rfl
        (Node.switchToLeader_entriesReqs env _)
  | candidacy | voteGranted | outrun | entriesUnknown | entriesEmpty | entriesStored =>
      simp at hlead
  | heartbeat _ lead | advanced lead | backedOff lead | appendStored lead | appendPending lead =>
      exact absurd lead hbefore
  | _ => exact absurd hlead hbefore

/-- What a prompt run keeps of the tracker and of the last heartbeat of a leader. -/
structure OnTime (δ : ℕ) (ls : List (Step Thread Lap)) (s : Thread) : Prop where
  waiting : s.phase = .waiting → s.clock ≤ s.tickTracker + heartbeatDelay + δ
  top : s.phase = .top → s.clock ≤ s.tickTracker + 2 * heartbeatDelay + 2 * δ
  beaten : s.node.volatile.status = .leader → ∃ t ∈ Thread.turns ls,
    Heartbeats t ∧ s.tickTracker ≤ t.act.env.now + δ

/-- A step that ticks, and takes no longer than `δ` from there. -/
theorem OnTime.ticked {δ : ℕ} {env : Env} {eff : Effects} {st : Step Thread Lap}
    (hpeers : st.before.node.volatile.seeds.isEmpty = false)
    (hturn : Thread.turnOf st = some ⟨st.before.node, ⟨env, .tick, eff⟩, st.after.node⟩)
    (hnext : st.before.node.handle env .tick = some (st.after.node, eff))
    (htracker : st.after.tickTracker ≤ env.now + δ)
    (hclock : st.after.clock ≤ st.after.tickTracker + δ) : OnTime δ (st :: ls) st.after := by
  constructor
  case waiting => exact fun _ => by omega
  case top => exact fun _ => by omega
  case beaten =>
    intro hlead
    refine ⟨_, ?_, heartbeats_of_tick hpeers hnext hlead, htracker⟩
    rw [Thread.turns, List.filterMap_cons_some hturn]
    exact List.mem_cons_self

/-- A step that leaves the node and the tracker alone keeps the last heartbeat. -/
theorem OnTime.quiet {δ : ℕ} {st : Step Thread Lap} (h : OnTime δ ls s)
    (hnone : Thread.turnOf st = none) (hnode : s'.node = s.node)
    (htracker : s'.tickTracker = s.tickTracker) : s'.node.volatile.status = .leader →
      ∃ t ∈ Thread.turns (st :: ls), Heartbeats t ∧ s'.tickTracker ≤ t.act.env.now + δ := by
  rw [Thread.turns, List.filterMap_cons_none hnone, hnode, htracker]
  exact h.beaten

theorem onTime_of_run {δ : ℕ} (hrun : ThreadRun id seeds now ls s) (hseeds : seeds ≠ [])
    (hprompt : ∀ st ∈ ls, Prompt δ st) : OnTime δ ls s := by
  refine Run.invariant (Prompt δ) (OnTime δ) ?_ ?_ hrun hprompt
  · refine ⟨by rintro ⟨⟩, fun _ => ?_, fun hlead => ?_⟩
    · show now ≤ now + _ + _
      omega
    · rw [Thread.start, Node.start, Volatile.new, if_neg (by simpa using hseeds)] at hlead
      cases hlead
  · intro ls s l s' hrun ih hnext hprompt
    have hpeers := isEmpty_of_run (ThreadRun.turns_run hrun) hseeds
    have hle := (tracked_of_run hrun).tracker_le
    cases Thread.next_moved hnext with
    | sent => exact ⟨ih.waiting, ih.top, ih.quiet rfl rfl rfl⟩
    | stopped | disconnected => exact ⟨by rintro ⟨⟩, by rintro ⟨⟩, ih.quiet rfl rfl rfl⟩
    | @passed at_ env ticked since _ le _ early =>
        refine ⟨fun _ => ?_, by rintro ⟨⟩, ih.quiet rfl rfl rfl⟩
        have hpace : since ≤ s.clock + δ := hprompt
        show since ≤ s.tickTracker + heartbeatDelay + δ
        omega
    | @checked at_ env ticked since _ _ _ le times _ _ handle =>
        obtain ⟨h₁, h₂, h₃⟩ := times
        have hpace : since ≤ s.clock + δ := hprompt
        refine OnTime.ticked hpeers rfl handle ?_ ?_
        · show ticked ≤ env.now + δ
          omega
        · show since ≤ ticked + δ
          omega
    | @timedOut at_ env ticked _ _ _ _ late times _ handle =>
        have hpace : ticked ≤ s.clock + heartbeatDelay + δ := hprompt
        refine OnTime.ticked hpeers rfl handle ?_ (Nat.le_add_right _ _)
        show ticked ≤ env.now + δ
        omega
    | @handled env done m rest msg n eff waiting _ le _ _ _ handle =>
        have hpace : done ≤ s.clock + heartbeatDelay + δ := hprompt
        have hwait := ih.waiting waiting
        refine ⟨by rintro ⟨⟩, fun _ => ?_, fun hlead => ?_⟩
        · show done ≤ s.tickTracker + 2 * heartbeatDelay + 2 * δ
          omega
        · by_cases hbefore : s.node.volatile.status = .leader
          · obtain ⟨t, ht, hbeat, htime⟩ := ih.beaten hbefore
            exact ⟨t, List.mem_cons_of_mem _ ht, hbeat, htime⟩
          · refine ⟨_, List.mem_cons_self,
              heartbeats_of_elected (Node.handle_turned handle) hbefore hlead, ?_⟩
            show s.tickTracker ≤ env.now + δ
            omega

/-- **A leader's heartbeats are in time.**  If nothing but the wait takes the loop longer than
`δ`, then as long as the thread of a leader runs, its last heartbeat went to every peer at most
two heartbeat delays and `3δ` ago. -/
theorem heartbeats_in_time {δ : ℕ} (hrun : ThreadRun id seeds now ls s) (hseeds : seeds ≠ [])
    (hprompt : ∀ st ∈ ls, Prompt δ st) (hruns : s.phase ≠ .ended)
    (hlead : s.node.volatile.status = .leader) :
    ∃ t ∈ Thread.turns ls, Heartbeats t ∧
      s.clock ≤ t.act.env.now + 2 * heartbeatDelay + 3 * δ := by
  have htime := onTime_of_run hrun hseeds hprompt
  obtain ⟨t, ht, hbeat, hle⟩ := htime.beaten hlead
  refine ⟨t, ht, hbeat, ?_⟩
  cases hphase : s.phase with
  | ended => exact absurd hphase hruns
  | top =>
      have hclock := htime.top hphase
      omega
  | waiting =>
      have hclock := htime.waiting hphase
      omega

end

/-- What a step puts into the mailbox. -/
def sentBy (st : Step Thread Lap) : List Mail :=
  match st.act.act with
  | .send m => [m]
  | _ => []

/-- The messages sent to the thread, the first one first. -/
def sent : List (Step Thread Lap) → List Mail
  | [] => []
  | st :: ls => sent ls ++ sentBy st

/-- The steps the loop took itself.  A round is two of them. -/
def paces (ls : List (Step Thread Lap)) : ℕ := ls.countP fun st => (sentBy st).isEmpty

/-- The message a turn handles. -/
def messageOf (t : Step Node Turn) : List Msg :=
  match t.act.input with
  | .msg msg => [msg]
  | .tick => []

/-- The messages the handlers got, the first one first. -/
def messages : List (Step Node Turn) → List Msg
  | [] => []
  | t :: ts => messages ts ++ messageOf t

/-- What has become of the messages of a thread `s₀` that took the steps `ls` and runs yet. -/
structure Handles (s₀ : Thread) (ls : List (Step Thread Lap)) (s : Thread) : Prop where
  inOrder : (messages (Thread.turns ls)).map some ++ s.mailbox.map Mail.msg? =
    (s₀.mailbox ++ sent ls).map Mail.msg?
  soon : ∀ k < s₀.mailbox.length, 2 * k + 2 ≤ paces ls →
    k < (messages (Thread.turns ls)).length

/-- What carries `Handles`: while one of the first messages is left, every two steps of the loop
have handled one. -/
structure Handling (s₀ : Thread) (ls : List (Step Thread Lap)) (s : Thread) : Prop where
  inOrder : (messages (Thread.turns ls)).map some ++ s.mailbox.map Mail.msg? =
    (s₀.mailbox ++ sent ls).map Mail.msg?
  keepsUp : s₀.mailbox.length ≤ (messages (Thread.turns ls)).length ∨
    paces ls ≤ 2 * (messages (Thread.turns ls)).length + if s.phase = .waiting then 1 else 0

section

variable {s₀ s s' : Thread} {ls : List (Step Thread Lap)} {st : Step Thread Lap}

/-- A step that sends something takes the loop no further. -/
theorem paces_cons : paces (st :: ls) = paces ls + if (sentBy st).isEmpty then 1 else 0 :=
  List.countP_cons

/-- A step that handles no message adds none. -/
theorem messages_cons_of_quiet
    (hquiet : (Thread.turnOf st).all (fun t => (messageOf t).isEmpty) = true) :
    messages (Thread.turns (st :: ls)) = messages (Thread.turns ls) := by
  rw [Thread.turns]
  cases ht : Thread.turnOf st with
  | none => rw [List.filterMap_cons_none ht, Thread.turns]
  | some t =>
      have hnone := List.isEmpty_iff.1 ((Option.all_eq_true _ _).1 hquiet t ht)
      rw [List.filterMap_cons_some ht, messages, hnone, List.append_nil, Thread.turns]

/-- The check at the top of the loop leads to `recv_timeout`, whether it ticks or not. -/
theorem Handling.checked (h : Handling s₀ ls s) (htop : s.phase = .top)
    (hquiet : (Thread.turnOf st).all (fun t => (messageOf t).isEmpty) = true)
    (hsent : sentBy st = []) (hwaiting : s'.phase = .waiting) (hmailbox : s'.mailbox = s.mailbox) :
    Handling s₀ (st :: ls) s' := by
  have hsame : messages (Thread.turns (st :: ls)) = messages (Thread.turns ls) :=
    messages_cons_of_quiet hquiet
  constructor
  case inOrder =>
    rw [hsame, hmailbox, sent, hsent, List.append_nil]
    exact h.inOrder
  case keepsUp =>
    rw [hsame]
    refine h.keepsUp.imp_right fun hle => ?_
    rw [htop, if_neg nofun] at hle
    rw [paces_cons, hsent, if_pos List.isEmpty_nil, if_pos hwaiting]
    omega

/-- **A step of the loop** that does not end the thread. -/
theorem Handling.next {l : Lap} (h : Handling s₀ ls s) (hnext : s.next l s')
    (hlive : s'.phase ≠ .ended) : Handling s₀ (⟨s, l, s'⟩ :: ls) s' := by
  cases Thread.next_moved hnext with
  | stopped | disconnected => exact absurd rfl hlive
  | passed top => exact h.checked top rfl rfl rfl rfl
  | checked top => exact h.checked top rfl rfl rfl rfl
  | @sent m =>
      constructor
      case inOrder =>
        rw [messages_cons_of_quiet rfl]
        calc (messages (Thread.turns ls)).map some ++ (s.mailbox ++ [m]).map Mail.msg?
            = (messages (Thread.turns ls)).map some ++ s.mailbox.map Mail.msg? ++
                [m].map Mail.msg? := by rw [List.map_append, List.append_assoc]
          _ = (s₀.mailbox ++ sent ls ++ [m]).map Mail.msg? := by
              rw [h.inOrder, ← List.map_append]
          _ = (s₀.mailbox ++ (sent ls ++ [m])).map Mail.msg? := by rw [List.append_assoc]
      case keepsUp =>
        rw [messages_cons_of_quiet rfl]
        exact h.keepsUp
  | timedOut _ empty =>
      have horder := h.inOrder
      rw [empty, List.map_nil, List.append_nil] at horder
      have hall := congrArg List.length horder
      rw [List.length_map, List.length_map, List.length_append] at hall
      constructor
      case inOrder =>
        rw [messages_cons_of_quiet rfl, sent, List.map_nil, List.append_nil, horder]
        exact congrArg _ (congrArg _ (List.append_nil _).symm)
      case keepsUp =>
        -- the loop waits in vain only once all it had is handled
        rw [messages_cons_of_quiet rfl]
        exact Or.inl (by omega)
  | @handled env done m rest msg n eff waiting mail _ _ _ is =>
      let lap : Lap := ⟨.receive env done, ⟨some ⟨env, .msg msg, eff⟩, m.replies eff⟩⟩
      have hnew : ∀ s', messages (Thread.turns (⟨s, lap, s'⟩ :: ls)) =
          messages (Thread.turns ls) ++ [msg] := fun _ => rfl
      constructor
      case inOrder =>
        have horder := h.inOrder
        rw [mail, List.map_cons, is] at horder
        rw [hnew, List.map_append, List.append_assoc, sent]
        exact horder.trans (congrArg _ (congrArg _ (List.append_nil _).symm))
      case keepsUp =>
        rw [hnew, List.length_append, List.length_singleton]
        refine h.keepsUp.imp (fun hle => by omega) fun hle => ?_
        rw [if_pos waiting] at hle
        rw [paces_cons, if_neg (fun hphase : Phase.top = .waiting => nomatch hphase)]
        show paces ls + 1 ≤ _
        omega

/-- **Every run** of a thread that is not over. -/
theorem handling_of_run (hrun : Run Thread.next s₀ ls s) (hlive : s.phase ≠ .ended) :
    Handling s₀ ls s := by
  induction hrun with
  | nil => exact ⟨by rw [sent, List.append_nil]; rfl, Or.inr (Nat.zero_le _)⟩
  | cons _ hnext ih => exact (ih (Thread.live_of_next hnext)).next hnext hlive

/-- **No message waits for the ticks.**  As long as the thread runs, its handlers got the messages
of the mailbox and those sent later, each once and as they were sent, but for those that are
still in the mailbox.  One with `k` others before it was handled once the loop took `k + 1`
rounds, whatever comes behind it and however often a tick is due. -/
theorem mail_handled (hrun : Run Thread.next s₀ ls s) (hlive : s.phase ≠ .ended) :
    Handles s₀ ls s := by
  have h := handling_of_run hrun hlive
  refine ⟨h.inOrder, fun k hk hpaces => ?_⟩
  rcases h.keepsUp with hall | hle
  · exact hk.trans_le hall
  · split_ifs at hle <;> omega

end

/-- Two requests stand in the mailbox, and a tick is due at the top of both rounds. -/
theorem mail_handled_tickDue : ∃ s₀ ls s, s₀.mailbox.length = 2 ∧
    tickTimes (Thread.turns ls) = [60000000, 30000000] ∧ paces ls = 4 ∧ Handles s₀ ls s := by
  let ask : Mail := .request (.client .status) 0
  let s₀ : Thread :=
    { Thread.start (localhost 2113) (Config.trio.seeds (localhost 2113)) 0 with
      mailbox := [ask, ask] }
  have hreplay := @Run.exists_of_replayWith _ _ Thread.next s₀ _ _ Thread.step Lap.mk
    (fun _ _ _ h => h)
    [.check 30000000 ⟨30000000, 150⟩ 30000000 30000000, .receive ⟨30000000, 150⟩ 30000000,
      .check 60000000 ⟨60000000, 150⟩ 60000000 60000000, .send ask,
      .receive ⟨60000000, 150⟩ 60000000]
    (fun ls s => s.phase ≠ .ended ∧ tickTimes (Thread.turns ls) = [60000000, 30000000] ∧
      paces ls = 4) _ (by decide +kernel)
  obtain ⟨ls, s, hrun, hlive, hticks, hpaces⟩ := hreplay
  exact ⟨s₀, ls, s, rfl, hticks, hpaces, mail_handled hrun hlive⟩

/-- The node on port 2113 runs at its first tick and wins.  Its next heartbeat is on time, and
then two requests come, each just before the wait for it is over. -/
def lateHeartbeat : List ThreadAction :=
  let ask : Mail := .request (.client .status) 0
  [.check 0 ⟨0, 150⟩ 0 0, .timeout 30000000 ⟨30000000, 150⟩ 30000000,
    .send (.voteReceived (localhost 2114) 1 true),
    .check 30000000 ⟨30000000, 150⟩ 30000000 30000000, .receive ⟨30000000, 150⟩ 30000000,
    .check 30000000 ⟨30000000, 150⟩ 30000000 30000000,
    .timeout 60000000 ⟨60000000, 150⟩ 60000000,
    .send ask, .check 60000000 ⟨60000000, 150⟩ 60000000 60000000,
    .receive ⟨89999999, 150⟩ 89999999, .send ask,
    .check 89999999 ⟨89999999, 150⟩ 89999999 89999999, .receive ⟨119999998, 150⟩ 119999998]

/-- The ticks of the node on port 2113, 30 ms apart. -/
theorem ticks_apart_late : ∃ ls s,
    ThreadRun (localhost 2113) (Config.trio.seeds (localhost 2113)) 0 ls s ∧
      tickTimes (Thread.turns ls) = [60000000, 30000000] ∧
      (tickTimes (Thread.turns ls)).Pairwise fun later earlier =>
        earlier + heartbeatDelay ≤ later := by
  obtain ⟨ls, s, hrun, hticks⟩ := ThreadRun.exists_of_replay (localhost 2113)
    (Config.trio.seeds (localhost 2113)) lateHeartbeat
    (fun ls _ => tickTimes (Thread.turns ls) = [60000000, 30000000]) (by decide +kernel)
  exact ⟨ls, s, hrun, hticks, ticks_apart hrun⟩

/-- The bound is met but for two nanoseconds, where no step takes any time. -/
theorem heartbeats_in_time_late : ∃ ls s,
    ThreadRun (localhost 2113) (Config.trio.seeds (localhost 2113)) 0 ls s ∧
      s.node.volatile.status = .leader ∧
      (∃ t ∈ Thread.turns ls, Heartbeats t ∧ s.clock ≤ t.act.env.now + 2 * heartbeatDelay + 3 * 0) ∧
      ∀ τ ∈ tickTimes (Thread.turns ls), τ + 2 * heartbeatDelay ≤ s.clock + 2 := by
  obtain ⟨ls, s, hrun, hprompt, hruns, hlead, hlate⟩ := ThreadRun.exists_of_replay (localhost 2113)
    (Config.trio.seeds (localhost 2113)) lateHeartbeat
    (fun ls s => (∀ st ∈ ls, Prompt 0 st) ∧ s.phase ≠ .ended ∧
      s.node.volatile.status = .leader ∧
      ∀ τ ∈ tickTimes (Thread.turns ls), τ + 2 * heartbeatDelay ≤ s.clock + 2) (by decide +kernel)
  exact ⟨ls, s, hrun, hlead,
    heartbeats_in_time hrun (by decide +kernel) hprompt hruns hlead, hlate⟩

end Safety
end RaftPlayground
