/-
# The thread of a node

`state_machine` of `raft-server/src/machine.rs`, with its mailbox: `NodeClient` puts messages at
the end, the loop takes them from the front, and between two messages it looks at the clock.

A round of the loop has two parts.  At the top it ticks if `HEARTBEAT_DELAY` has passed since
the last tick, and calls `recv_timeout`.  There it takes a message, or ticks when nothing came
for as long, or leaves the loop.  Messages arrive between the two and while it waits.

A request carries the sending half of a channel, here its number.  What leaves a channel is a
`Reply`: the value the node sends, or `dropped` where the thread ends before it sends one.
`Shutdown`, a panic, and the loss of the last `NodeClient` end the thread.  Every `Seed` has a
`NodeClient` of its own, so the last of these can only befall a node without peers.
-/

import RaftPlayground.Server.Cluster

namespace RaftPlayground
namespace Server

open Protocol

/-- `HEARTBEAT_DELAY`. -/
def heartbeatDelay : ℕ := fromMillis 30

/-- The messages of `Msg` that carry a reply channel, without it. -/
inductive Request
  | requestVote (term : ℕ) (candidateId : NodeId) (lastLogIndex lastLogTerm : ℕ)
  | appendEntries (term : ℕ) (leaderId : NodeId) (prevLogIndex prevLogTerm leaderCommit : ℕ)
      (entries : List Entry)
  | client (req : ClientReq)
deriving DecidableEq, Repr

/-- The message of a request that waits on the channel `resp`. -/
def Request.msg (resp : Sender) : Request → Msg
  | requestVote term candidateId lastLogIndex lastLogTerm =>
    .requestVote term candidateId lastLogIndex lastLogTerm
  | appendEntries term leaderId prevLogIndex prevLogTerm leaderCommit entries =>
    .appendEntries term leaderId prevLogIndex prevLogTerm leaderCommit entries
  | client req => req.msg resp

/-- What stands in the mailbox: `Msg`, with the reply channels and with `Shutdown`. -/
inductive Mail
  | request (req : Request) (resp : Sender)
  | voteReceived (nodeId : NodeId) (term : ℕ) (granted : Bool)
  | appendEntriesResp (nodeId : NodeId) (batchEndLogIndex : Option ℕ)
      (resp : Option AppendEntriesResp)
  | shutdown
deriving DecidableEq, Repr

/-- What comes out of a reply channel. -/
inductive Reply
  | vote (term : ℕ) (granted : Bool)
  | entries (term : ℕ) (success : Bool)
  | append (position : Option ℕ)
  | read (batch : Option (List RecordedEvent))
  | status (resp : StatusResp)
  | dropped
deriving DecidableEq, Repr

namespace Mail

/-- The message a handler gets; `Shutdown` has none. -/
def msg? : Mail → Option Msg
  | request req resp => some (req.msg resp)
  | voteReceived nodeId term granted => some (.voteReceived nodeId term granted)
  | appendEntriesResp nodeId batchEndLogIndex resp =>
    some (.appendEntriesResp nodeId batchEndLogIndex resp)
  | shutdown => none

/-- The channel a mail carries. -/
def channels : Mail → List Sender
  | request _ resp => [resp]
  | _ => []

/-- What the loop sends back itself once the handler has returned. -/
def replied (eff : Effects) : Mail → List (Sender × Reply)
  | request (.requestVote ..) resp => eff.reply.toList.map fun r => (resp, .vote r.1 r.2)
  | request (.appendEntries ..) resp => eff.reply.toList.map fun r => (resp, .entries r.1 r.2)
  | request (.client (.read _)) resp =>
    eff.events.toList.map fun batch => (resp, .read (some batch))
  | request (.client .status) resp => eff.status.toList.map fun snapshot => (resp, .status snapshot)
  | _ => []

/-- All that leaves the channels while a mail is handled. -/
def replies (eff : Effects) (m : Mail) : List (Sender × Reply) :=
  m.replied eff ++ eff.answers.map fun a => (a.1, .append a.2)

end Mail

/-- Where the thread stands: at the top of the loop, in `recv_timeout`, or past the loop. -/
inductive Phase
  | top
  | waiting
  | ended
deriving DecidableEq, Repr

/-- The thread of a node, with its mailbox.  The clock is the instant of the last thing it did:
in `recv_timeout`, when it called it. -/
structure Thread where
  node : Node
  tickTracker : ℕ
  phase : Phase
  mailbox : List Mail
  clock : ℕ
deriving DecidableEq

/-- What may happen next.  The instants of a step are those of the calls of `Instant::now()`
and of the end of the step, in the order the source makes them. -/
inductive ThreadAction
  | send (m : Mail)
  | check (now : ℕ) (env : Env) (ticked since : ℕ)
  | receive (env : Env) (done : ℕ)
  | timeout (now : ℕ) (env : Env) (ticked : ℕ)
  | disconnect
deriving DecidableEq, Repr

/-- What a step of the thread makes: the turn of the node it executes, and what leaves the
reply channels. -/
structure Outcome where
  turn : Option Turn := none
  replies : List (Sender × Reply) := []
deriving DecidableEq

/-- A step of the thread. -/
structure Lap where
  act : ThreadAction
  out : Outcome
deriving DecidableEq

namespace Thread

/-- The thread before its first round. -/
def start (id : NodeId) (seeds : List Seed) (now : ℕ) : Thread :=
  { node := Node.start id seeds now
    tickTracker := now
    phase := .top
    mailbox := []
    clock := now }

/-- The channels the thread holds the sending half of. -/
def held (s : Thread) : List Sender :=
  if s.phase = .ended then []
  else s.mailbox.flatMap Mail.channels ++ s.node.volatile.inflights.map Prod.snd

/-- The thread ends: the mailbox and the state are dropped, and the channels in them. -/
def exit (s : Thread) (done : ℕ) : Thread × Outcome :=
  ({ s with phase := .ended, mailbox := [], clock := done },
    { replies := s.held.map fun resp => (resp, .dropped) })

/-- `on_tick`, and the tracker set anew. -/
def tick (s : Thread) (env : Env) (ticked : ℕ) : Thread × Outcome :=
  let (node, effects) := s.node.onTick env
  ({ s with node, tickTracker := ticked },
    { turn := some { env, input := .tick, effects },
      replies := effects.answers.map fun a => (a.1, .append a.2) })

/-- A drawn timeout is in the range of the node. -/
def Draws (s : Thread) (env : Env) : Prop :=
  s.node.volatile.electionTimeoutRange.low ≤ env.timeout ∧
    env.timeout < s.node.volatile.electionTimeoutRange.high

instance (s : Thread) (env : Env) : Decidable (s.Draws env) := inferInstanceAs (Decidable (_ ∧ _))

/-- The message at the front of the mailbox is handled. -/
def dispatch (s : Thread) (m : Mail) (rest : List Mail) (env : Env) (done : ℕ) :
    Thread × Outcome :=
  match m.msg? with
  | none => s.exit done
  | some msg =>
    match s.node.handle env (.msg msg) with
    -- a panic: the message is dropped with those behind it
    | none => s.exit done
    | some (node, effects) =>
      ({ s with node, phase := .top, mailbox := rest, clock := done },
        { turn := some { env, input := .msg msg, effects }, replies := m.replies effects })

/-- One step of the thread; `none` where the action is not possible. -/
def step (s : Thread) : ThreadAction → Option (Thread × Outcome)
  | .send m =>
    -- `send` fails once the receiving half is dropped
    if s.phase = .ended then none else some ({ s with mailbox := s.mailbox ++ [m] }, {})
  | .check now env ticked since =>
    if s.phase = .top ∧ s.clock ≤ now ∧ now ≤ env.now ∧ env.now ≤ ticked ∧ ticked ≤ since ∧
        s.Draws env then
      let (s, out) := if now - s.tickTracker ≥ heartbeatDelay then s.tick env ticked else (s, {})
      some ({ s with phase := .waiting, clock := since }, out)
    else none
  | .receive env done =>
    match s.phase, s.mailbox with
    | .waiting, m :: rest =>
      if s.clock ≤ env.now ∧ env.now ≤ done ∧ s.Draws env then
        some (s.dispatch m rest env done)
      else none
    | _, _ => none
  | .timeout now env ticked =>
    match s.phase, s.mailbox with
    | .waiting, [] =>
      if s.clock + heartbeatDelay ≤ now ∧ now ≤ env.now ∧ env.now ≤ ticked ∧ s.Draws env then
        let (s, out) := s.tick env ticked
        some ({ s with phase := .top, clock := ticked }, out)
      else none
    | _, _ => none
  | .disconnect =>
    match s.phase, s.mailbox with
    | .waiting, [] =>
      if s.node.volatile.seeds.isEmpty then some (s.exit s.clock) else none
    | _, _ => none

/-- The lap `l` takes the thread `s` to `s'`. -/
def next (s : Thread) (l : Lap) (s' : Thread) : Prop := s.step l.act = some (s', l.out)

/-- The ways a step of the thread ends. -/
inductive Moved (s : Thread) : Lap → Thread → Prop
  | sent {m} (live : s.phase ≠ .ended) :
      Moved s ⟨.send m, {}⟩ { s with mailbox := s.mailbox ++ [m] }
  | passed {now env ticked since} (top : s.phase = .top) (le : s.clock ≤ now) (le' : now ≤ since)
      (early : now - s.tickTracker < heartbeatDelay) :
      Moved s ⟨.check now env ticked since, {}⟩ { s with phase := .waiting, clock := since }
  | checked {now env ticked since n eff} (top : s.phase = .top) (le : s.clock ≤ now)
      (times : now ≤ env.now ∧ env.now ≤ ticked ∧ ticked ≤ since) (draws : s.Draws env)
      (due : heartbeatDelay ≤ now - s.tickTracker)
      (handle : s.node.handle env .tick = some (n, eff)) :
      Moved s
        ⟨.check now env ticked since,
          ⟨some ⟨env, .tick, eff⟩, eff.answers.map fun a => (a.1, .append a.2)⟩⟩
        { node := n, tickTracker := ticked, phase := .waiting, mailbox := s.mailbox,
          clock := since }
  | timedOut {now env ticked n eff} (waiting : s.phase = .waiting)
      (empty : s.mailbox = []) (late : s.clock + heartbeatDelay ≤ now)
      (times : now ≤ env.now ∧ env.now ≤ ticked) (draws : s.Draws env)
      (handle : s.node.handle env .tick = some (n, eff)) :
      Moved s
        ⟨.timeout now env ticked,
          ⟨some ⟨env, .tick, eff⟩, eff.answers.map fun a => (a.1, .append a.2)⟩⟩
        { node := n, tickTracker := ticked, phase := .top, mailbox := [], clock := ticked }
  | handled {env done m rest msg n eff} (waiting : s.phase = .waiting)
      (mail : s.mailbox = m :: rest) (le : s.clock ≤ env.now) (le' : env.now ≤ done)
      (draws : s.Draws env) (is : m.msg? = some msg)
      (handle : s.node.handle env (.msg msg) = some (n, eff)) :
      Moved s ⟨.receive env done, ⟨some ⟨env, .msg msg, eff⟩, m.replies eff⟩⟩
        { s with node := n, phase := .top, mailbox := rest, clock := done }
  | stopped {env done m rest} (waiting : s.phase = .waiting)
      (mail : s.mailbox = m :: rest) (le : s.clock ≤ env.now) (le' : env.now ≤ done)
      (out : ∀ msg, m.msg? = some msg → s.node.handle env (.msg msg) = none) :
      Moved s ⟨.receive env done, (s.exit done).2⟩ (s.exit done).1
  | disconnected (waiting : s.phase = .waiting) (empty : s.mailbox = [])
      (alone : s.node.volatile.seeds.isEmpty = true) :
      Moved s ⟨.disconnect, (s.exit s.clock).2⟩ (s.exit s.clock).1

theorem next_moved {s s' : Thread} {l : Lap} (hnext : s.next l s') : s.Moved l s' := by
  obtain ⟨act, out⟩ := l
  unfold next at hnext
  cases act with
  | send m =>
      simp only [step, Option.ite_none_left_eq_some, Option.some.injEq, Prod.mk.injEq] at hnext
      obtain ⟨hlive, rfl, rfl⟩ := hnext
      exact .sent hlive
  | check now env ticked since =>
      simp only [step, Option.ite_none_right_eq_some] at hnext
      obtain ⟨⟨htop, hle, h₁, h₂, h₃, hdraws⟩, hnext⟩ := hnext
      split_ifs at hnext with hdue
      · obtain ⟨rfl, rfl⟩ := Prod.mk.inj (Option.some.inj hnext)
        exact .checked htop hle ⟨h₁, h₂, h₃⟩ hdraws hdue rfl
      · obtain ⟨rfl, rfl⟩ := Prod.mk.inj (Option.some.inj hnext)
        exact .passed htop hle (h₁.trans (h₂.trans h₃)) (not_le.1 hdue)
  | receive env done =>
      simp only [step] at hnext
      split at hnext
      case h_2 => exact nomatch hnext
      case h_1 m rest hwaiting hmail =>
        obtain ⟨⟨hle, hle', hdraws⟩, hnext⟩ := Option.ite_none_right_eq_some.1 hnext
        have hdispatch := Option.some.inj hnext
        unfold dispatch at hdispatch
        split at hdispatch
        case h_1 hnone =>
          obtain ⟨rfl, rfl⟩ := Prod.mk.inj hdispatch
          exact .stopped hwaiting hmail hle hle' fun msg hmsg => nomatch hnone.symm.trans hmsg
        case h_2 msg hmsg =>
          split at hdispatch
          case h_1 hpanic =>
            obtain ⟨rfl, rfl⟩ := Prod.mk.inj hdispatch
            refine .stopped hwaiting hmail hle hle' fun msg' hmsg' => ?_
            exact Option.some.inj (hmsg.symm.trans hmsg') ▸ hpanic
          case h_2 n eff hhandle =>
            obtain ⟨rfl, rfl⟩ := Prod.mk.inj hdispatch
            exact .handled hwaiting hmail hle hle' hdraws hmsg hhandle
  | timeout now env ticked =>
      simp only [step] at hnext
      split at hnext
      case h_2 => exact nomatch hnext
      case h_1 hwaiting hempty =>
        obtain ⟨⟨hlate, h₁, h₂, hdraws⟩, hnext⟩ := Option.ite_none_right_eq_some.1 hnext
        obtain ⟨rfl, rfl⟩ := Prod.mk.inj (Option.some.inj hnext)
        have hmoved := Moved.timedOut (s := s) hwaiting hempty hlate ⟨h₁, h₂⟩ hdraws rfl
        rwa [← hempty] at hmoved
  | disconnect =>
      simp only [step] at hnext
      split at hnext
      case h_2 => exact nomatch hnext
      case h_1 hwaiting hempty =>
        obtain ⟨halone, hnext⟩ := Option.ite_none_right_eq_some.1 hnext
        obtain ⟨rfl, rfl⟩ := Prod.mk.inj (Option.some.inj hnext)
        exact .disconnected hwaiting hempty halone

/-- A thread that has ended does nothing. -/
theorem live_of_next {s s' : Thread} {l : Lap} (hnext : s.next l s') : s.phase ≠ .ended := by
  have htop : Phase.top ≠ .ended := nofun
  have hwaiting : Phase.waiting ≠ .ended := nofun
  cases next_moved hnext with
  | sent live => exact live
  | passed top | checked top => exact top ▸ htop
  | timedOut waiting | handled waiting | stopped waiting | disconnected waiting =>
      exact waiting ▸ hwaiting

/-- The turn of the node a step of its thread executes. -/
def turnOf (st : Step Thread Lap) : Option (Step Node Turn) :=
  st.act.out.turn.map fun t => ⟨st.before.node, t, st.after.node⟩

/-- The turns of the node a run of its thread executes. -/
def turns (ls : List (Step Thread Lap)) : List (Step Node Turn) := ls.filterMap turnOf

/-- A step of the thread executes a turn of the node, at an instant that is not before the
clock, or leaves the node alone. -/
theorem turnOf_cases {s s' : Thread} {l : Lap} (hnext : s.next l s') :
    s.clock ≤ s'.clock ∧
      ((turnOf ⟨s, l, s'⟩ = none ∧ s'.node = s.node) ∨
        ∃ t, turnOf ⟨s, l, s'⟩ = some ⟨s.node, t, s'.node⟩ ∧ s.node.next t s'.node ∧
          s.clock ≤ t.env.now ∧ t.env.now ≤ s'.clock ∧ s.Draws t.env) := by
  cases next_moved hnext with
  | sent | disconnected => exact ⟨le_rfl, Or.inl ⟨rfl, rfl⟩⟩
  | passed _ le le' => exact ⟨le.trans le', Or.inl ⟨rfl, rfl⟩⟩
  | stopped _ _ le le' => exact ⟨le.trans le', Or.inl ⟨rfl, rfl⟩⟩
  | checked _ le times draws _ handle =>
      obtain ⟨h₁, h₂, h₃⟩ := times
      exact ⟨le.trans (h₁.trans (h₂.trans h₃)),
        Or.inr ⟨_, rfl, handle, le.trans h₁, h₂.trans h₃, draws⟩⟩
  | timedOut _ _ late times draws handle =>
      have hle : s.clock ≤ _ := (Nat.le_add_right _ _).trans (late.trans times.1)
      exact ⟨hle.trans times.2, Or.inr ⟨_, rfl, handle, hle, times.2, draws⟩⟩
  | handled _ _ le le' draws _ handle =>
      exact ⟨le.trans le', Or.inr ⟨_, rfl, handle, le, le', draws⟩⟩

end Thread

/-- The runs of the thread of a node, over any sequence of messages and any pace. -/
abbrev ThreadRun (id : NodeId) (seeds : List Seed) (now : ℕ) :
    List (Step Thread Lap) → Thread → Prop :=
  Run Thread.next (Thread.start id seeds now)

/-- A run of a thread that starts at the instant `0`, by evaluation. -/
theorem ThreadRun.exists_of_replay (id : NodeId) (seeds : List Seed) (as : List ThreadAction)
    (P : List (Step Thread Lap) → Thread → Prop) [∀ ls s, Decidable (P ls s)]
    (hcheck : (replayWith Thread.step Lap.mk [] (Thread.start id seeds 0) as).any
      (fun x => decide (P x.1 x.2)) = true) :
    ∃ ls s, ThreadRun id seeds 0 ls s ∧ P ls s :=
  Run.exists_of_replayWith (fun _ _ _ h => h) as P hcheck

/-- **The thread runs the node.**  What a thread does to its node is a run of the node. -/
theorem ThreadRun.turns_run {id : NodeId} {seeds : List Seed} {now : ℕ}
    {ls : List (Step Thread Lap)} {s : Thread} (hrun : ThreadRun id seeds now ls s) :
    NodeRun id seeds now (Thread.turns ls) s.node := by
  induction hrun with
  | nil => exact .nil
  | cons _ hnext ih =>
      rw [Thread.turns]
      rcases (Thread.turnOf_cases hnext).2 with ⟨hnone, hnode⟩ | ⟨t, hsome, ht, _⟩
      · rw [List.filterMap_cons_none hnone, hnode]
        exact ih
      · rw [List.filterMap_cons_some hsome]
        exact ih.cons ht

end Server
end RaftPlayground
