/-
# Every call returns once

A call returns at once where its service turns it away, or it hands its channel to the thread
of the node.  The channel stands in the mailbox, then the loop replies itself or the handler
keeps the channel of an append among `inflights`.  Each move of a channel is a single one, so
at any time a call has returned or its channel is with the thread, and never both
(`ReturnsOnce`).  The thread drops what it holds when it ends; so once it has ended, and however
it ended, nobody waits (`calls_return_once`).

What a call returns is what a turn of the node made of that very request, for the turn took the
request from the mailbox under the number of the call and the reply left the channel of this number;
an append may be answered by a later turn.  Or it is a fault of the service: `unavailable` tells of
a thread that has ended, and of nothing else, and `not-leader` goes to appends alone
(`results_answer`).
-/

import RaftPlayground.Protocol.Ledger
import RaftPlayground.Server.Service
import RaftPlayground.Safety.Request

namespace RaftPlayground
namespace Safety

open Protocol Server

/-- Every call so far has returned once, or the thread holds its channel once. -/
structure ReturnsOnce (s : Service) : Prop where
  once : ∀ c < s.asked.length,
    ((s.results.map Prod.fst).count c = 1 ∧ s.thread.held.count c = 0) ∨
      ((s.results.map Prod.fst).count c = 0 ∧ s.thread.held.count c = 1)
  only : ∀ x ∈ s.results, x.1 < s.asked.length
  ended : s.thread.phase = .ended → ∀ c < s.asked.length, (s.results.map Prod.fst).count c = 1

/-- The step takes the request of the call number `c` from the mailbox, and handles it in the
turn. -/
structure Takes (st : Step Service Event) (c : ℕ) (req : Request) (t : Turn) : Prop where
  mail : st.before.thread.mailbox.head? = some (.request req c)
  turn : st.act.out.turn = some t
  input : t.input = .msg (req.msg c)

/-- The reply leaves the channel of the call number `c` in the step, after the turn. -/
structure Sends (st : Step Service Event) (c : ℕ) (reply : Reply) (t : Turn) : Prop where
  turn : st.act.out.turn = some t
  reply : (c, reply) ∈ st.act.out.replies

/-- The result is one the call number `c` may return, by the steps so far and whether the thread
has ended. -/
inductive Answers (h : List (Step Service Event)) (ended : Prop) (c : ℕ) : Rpc → RpcResult → Prop
  | settled {rpc result} (accept : rpc.accept = .inl result) : Answers h ended c rpc result
  | voted {term cand lli llt term' granted st t} (step : st ∈ h)
      (takes : Takes st c (.requestVote term cand lli llt) t)
      (sends : Sends st c (.vote term' granted) t)
      (reply : t.effects.reply = some (term', granted)) :
      Answers h ended c (.requestVote term (some cand) lli llt) (.ok (.vote term' granted))
  | replicated {term id prev prevTerm commit es term' success st t} (step : st ∈ h)
      (takes : Takes st c (.appendEntries term id prev prevTerm commit es) t)
      (sends : Sends st c (.entries term' success) t)
      (reply : t.effects.reply = some (term', success)) :
      Answers h ended c (.appendEntries term (some id) prev prevTerm commit es)
        (.ok (.entries term' success))
  | appended {streamId events position st t st' t'} (step : st ∈ h)
      (takes : Takes st c (.client (.append streamId events)) t) (step' : st' ∈ h)
      (sends : Sends st' c (.append (some position)) t')
      (answer : (c, some position) ∈ t'.effects.answers) :
      Answers h ended c (.append streamId events) (.ok (.append position))
  | notLeader {streamId events st t st' t'} (step : st ∈ h)
      (takes : Takes st c (.client (.append streamId events)) t) (step' : st' ∈ h)
      (sends : Sends st' c (.append none) t') (answer : (c, none) ∈ t'.effects.answers) :
      Answers h ended c (.append streamId events) (.error ⟨.failedPrecondition, "not-leader"⟩)
  | read {streamId batch st t} (step : st ∈ h) (takes : Takes st c (.client (.read streamId)) t)
      (sends : Sends st c (.read (some batch)) t) (found : t.effects.events = some batch) :
      Answers h ended c (.read streamId) (.ok (.read batch))
  | status {snapshot st t} (step : st ∈ h) (takes : Takes st c (.client .status) t)
      (sends : Sends st c (.status snapshot) t) (seen : t.effects.status = some snapshot) :
      Answers h ended c .status ((Request.client .status).result (.status snapshot))
  | gone {rpc req message} (isOver : ended) (accept : rpc.accept = .inr req)
      (text : message = nodeIsDown ∨ message = req.unexpected) :
      Answers h ended c rpc (.error ⟨.unavailable, message⟩)

section

variable {env : Env} {n n' : Node} {eff : Effects} {m : Mail} {msg : Msg}

/-- The channel a handled message carries is replied to by the loop, or it is that of an append
request. -/
theorem channels_of_handle (his : m.msg? = some msg)
    (hhandle : n.handle env (.msg msg) = some (n', eff)) :
    m.channels = (m.replied eff).map Prod.fst ++ receivedAt ⟨n, ⟨env, .msg msg, eff⟩, n'⟩ := by
  cases m with
  | shutdown => exact nomatch his
  | voteReceived | appendEntriesResp =>
      obtain rfl := Option.some.inj his
      rfl
  | request req resp =>
      obtain rfl := Option.some.inj his
      cases req with
      | requestVote =>
          obtain ⟨_, rfl⟩ := Prod.mk.inj (Option.some.inj hhandle)
          rfl
      | appendEntries =>
          obtain ⟨⟨_, result⟩, _, heq⟩ := Option.bind_eq_some_iff.1 hhandle
          obtain ⟨_, rfl⟩ := Prod.mk.inj (Option.some.inj heq)
          rfl
      | client req =>
          cases req with
          | append => rfl
          | read =>
              obtain ⟨_, _, heq⟩ := Option.bind_eq_some_iff.1 hhandle
              obtain ⟨_, rfl⟩ := Prod.mk.inj (Option.some.inj heq)
              rfl
          | status =>
              obtain ⟨_, rfl⟩ := Prod.mk.inj (Option.some.inj hhandle)
              rfl

/-- **A handled message conserves the channels**: its own and those that wait are those that
get a reply and those that wait afterwards. -/
theorem channels_conserved (his : m.msg? = some msg)
    (hhandle : n.handle env (.msg msg) = some (n', eff)) :
    (m.channels ++ pending n).Perm ((m.replies eff).map Prod.fst ++ pending n') := by
  have hturn := turned_conserves (Node.handle_turned hhandle)
  rw [channels_of_handle his hhandle, Mail.replies, List.map_append, List.append_assoc,
    List.append_assoc, List.map_map]
  exact hturn.append_left _

end

section

variable {s s' : Thread} {l : Lap}

theorem held_of_live (h : s.phase ≠ .ended) :
    s.held = s.mailbox.flatMap Mail.channels ++ pending s.node := if_neg h

theorem held_of_ended (h : s.phase = .ended) : s.held = [] := if_pos h

@[simp] theorem map_fst_answers (answers : List (Sender × Option ℕ)) :
    (answers.map fun a => (a.1, Reply.append a.2)).map Prod.fst = answers.map Prod.fst := by
  rw [List.map_map]
  rfl

/-- The loop puts nothing into its own mailbox. -/
theorem mailbox_subset (hnext : s.next l s') (hown : ∀ m, l.act ≠ .send m) :
    s'.mailbox ⊆ s.mailbox := by
  cases Thread.next_moved hnext with
  | sent => exact absurd rfl (hown _)
  | passed | checked => exact List.Subset.refl _
  | handled _ mail => exact mail ▸ List.subset_cons_self _ _
  | timedOut | stopped | disconnected => exact List.nil_subset _

/-- A tick conserves the channels that wait. -/
theorem ticked_conserves {env : Env} {n n' : Node} {eff : Effects}
    (hhandle : n.handle env .tick = some (n', eff)) :
    (pending n).Perm (eff.answers.map Prod.fst ++ pending n') :=
  turned_conserves (Node.handle_turned hhandle)

/-- **A step of the loop conserves the channels** of the thread: they get something out, or it
still holds them. -/
theorem held_conserved (hnext : s.next l s') (hown : ∀ m, l.act ≠ .send m) :
    s.held.Perm (l.out.replies.map Prod.fst ++ s'.held) := by
  have hexit : ∀ done,
      s.held.Perm ((s.exit done).2.replies.map Prod.fst ++ (s.exit done).1.held) := by
    intro done
    have hended : (s.exit done).1.phase = .ended := rfl
    rw [held_of_ended hended, List.append_nil, Thread.exit, List.map_map]
    exact .of_eq (List.map_id _).symm
  have htop : Phase.top ≠ .ended := nofun
  have hwaiting : Phase.waiting ≠ .ended := nofun
  cases Thread.next_moved hnext with
  | sent => exact absurd rfl (hown _)
  | passed top =>
      rw [held_of_live (top ▸ htop), held_of_live hwaiting]
      exact .refl _
  | checked top _ _ _ _ handle =>
      rw [held_of_live (top ▸ htop), held_of_live hwaiting]
      refine List.perm_iff_count.2 fun c => ?_
      have hcount := (ticked_conserves handle).count_eq c
      simp only [List.count_append, map_fst_answers] at hcount ⊢
      omega
  | timedOut waiting empty _ _ _ handle =>
      rw [held_of_live (waiting ▸ hwaiting), held_of_live htop, empty]
      refine List.perm_iff_count.2 fun c => ?_
      have hcount := (ticked_conserves handle).count_eq c
      simp only [List.count_append, map_fst_answers] at hcount ⊢
      omega
  | handled waiting mail _ _ _ is handle =>
      rw [held_of_live (waiting ▸ hwaiting), held_of_live htop, mail, List.flatMap_cons]
      refine List.perm_iff_count.2 fun c => ?_
      have hcount := (channels_conserved is handle).count_eq c
      simp only [List.count_append] at hcount ⊢
      omega
  | stopped => exact hexit _
  | disconnected => exact hexit _

end

/-- The call was an append, and its request was taken. -/
def AppendTaken (h : List (Step Service Event)) (s : Service) (c : ℕ) : Prop :=
  ∃ streamId events, s.asked[c]? = some (.append streamId events) ∧
    ∃ st ∈ h, ∃ t, Takes st c (.client (.append streamId events)) t

/-- What is known of the calls: where their channels are, and what they returned. -/
structure Accounted (h : List (Step Service Event)) (s : Service) : Prop where
  mail : ∀ req c, .request req c ∈ s.thread.mailbox →
    ∃ rpc, s.asked[c]? = some rpc ∧ rpc.accept = .inr req
  waits : ∀ c ∈ pending s.thread.node, AppendTaken h s c
  conserved : (s.results.map Prod.fst ++ s.thread.held).Perm (List.range s.asked.length)
  answered : ∀ x ∈ s.results, ∃ rpc, s.asked[x.1]? = some rpc ∧
    Answers h (s.thread.phase = .ended) x.1 rpc x.2

/-- The call a request was made for. -/
def rpcOf : Request → Rpc
  | .requestVote term candidateId lastLogIndex lastLogTerm =>
    .requestVote term (some candidateId) lastLogIndex lastLogTerm
  | .appendEntries term leaderId prevLogIndex prevLogTerm leaderCommit entries =>
    .appendEntries term (some leaderId) prevLogIndex prevLogTerm leaderCommit entries
  | .client (.append streamId events) => .append streamId events
  | .client (.read streamId) => .read streamId
  | .client .status => .status

theorem eq_rpcOf {rpc : Rpc} {req : Request} (h : rpc.accept = .inr req) : rpc = rpcOf req := by
  cases rpc with
  | requestVote _ id | appendEntries _ id =>
      cases id with
      | none => exact nomatch h
      | some => exact Sum.inr.inj h ▸ rfl
  | ping => exact nomatch h
  | append | read | status => exact Sum.inr.inj h ▸ rfl

/-- What a call may return, it may return later on. -/
theorem Answers.mono {h h' : List (Step Service Event)} {P P' : Prop} {c : ℕ} {rpc : Rpc}
    {result : RpcResult} (hanswers : Answers h P c rpc result) (hsub : h ⊆ h') (hP : P → P') :
    Answers h' P' c rpc result := by
  cases hanswers with
  | settled accept => exact .settled accept
  | voted step takes sends reply => exact .voted (hsub step) takes sends reply
  | replicated step takes sends reply => exact .replicated (hsub step) takes sends reply
  | appended step takes step' sends answer =>
      exact .appended (hsub step) takes (hsub step') sends answer
  | notLeader step takes step' sends answer =>
      exact .notLeader (hsub step) takes (hsub step') sends answer
  | read step takes sends found => exact .read (hsub step) takes sends found
  | status step takes sends seen => exact .status (hsub step) takes sends seen
  | gone isOver accept text => exact .gone (hP isOver) accept text

/-- What was taken, was taken later on, and calls keep their numbers. -/
theorem AppendTaken.mono {h h' : List (Step Service Event)} {s s' : Service} {c : ℕ}
    (htaken : AppendTaken h s c) (hsub : h ⊆ h') (hasked : s.asked <+: s'.asked) :
    AppendTaken h' s' c := by
  obtain ⟨streamId, events, hrpc, st, hst, htakes⟩ := htaken
  exact ⟨streamId, events, getElem?_of_isPrefix hasked hrpc, st, hsub hst, htakes⟩

section

variable {h : List (Step Service Event)} {P : Prop} {c : ℕ} {streamId : String}
  {events : List Bytes} {st st' : Step Service Event} {t t' : Turn}

/-- An answer of a turn to an append request is what the call may return. -/
theorem Answers.of_answer (hst : st ∈ h)
    (htakes : Takes st c (.client (.append streamId events)) t) (hst' : st' ∈ h)
    {answer : Option ℕ} (hsends : Sends st' c (.append answer) t')
    (hanswer : (c, answer) ∈ t'.effects.answers) :
    Answers h P c (.append streamId events)
      ((Request.client (.append streamId events)).result (.append answer)) := by
  cases answer with
  | none => exact .notLeader hst htakes hst' hsends hanswer
  | some => exact .appended hst htakes hst' hsends hanswer

/-- A reply of the loop to a request is what the call may return. -/
theorem Answers.of_replied {req : Request} (hst : st ∈ h) (htakes : Takes st c req t)
    {x : Sender × Reply} (hx : x ∈ (Mail.request req c).replied t.effects)
    (hsends : x ∈ st.act.out.replies) :
    x.1 = c ∧ Answers h P x.1 (rpcOf req) (req.result x.2) := by
  cases req with
  | requestVote =>
      obtain ⟨r, hr, rfl⟩ := List.mem_map.1 hx
      exact ⟨rfl, .voted hst htakes ⟨htakes.turn, hsends⟩ (Option.mem_toList.1 hr)⟩
  | appendEntries =>
      obtain ⟨r, hr, rfl⟩ := List.mem_map.1 hx
      exact ⟨rfl, .replicated hst htakes ⟨htakes.turn, hsends⟩ (Option.mem_toList.1 hr)⟩
  | client req =>
      cases req with
      | append => exact absurd hx List.not_mem_nil
      | read =>
          obtain ⟨batch, hr, rfl⟩ := List.mem_map.1 hx
          exact ⟨rfl, .read hst htakes ⟨htakes.turn, hsends⟩ (Option.mem_toList.1 hr)⟩
      | status =>
          obtain ⟨snapshot, hr, rfl⟩ := List.mem_map.1 hx
          exact ⟨rfl, .status hst htakes ⟨htakes.turn, hsends⟩ (Option.mem_toList.1 hr)⟩

end

section

variable {h h' : List (Step Service Event)} {s : Service} {l : Lap} {thread : Thread}
  {st : Step Service Event}

/-- The calls whose channels a handler can answer or keep are appends that were taken. -/
theorem Accounted.append_of_channel {env : Env} {n' : Node} {eff : Effects} {i : Input} {c : ℕ}
    (hacc : Accounted h s) (hsub : h ⊆ h')
    (hhandle : s.thread.node.handle env i = some (n', eff))
    (hmail : ∀ resp ∈ receivedAt ⟨s.thread.node, ⟨env, i, eff⟩, n'⟩, AppendTaken h' s resp)
    (hc : c ∈ eff.answers.map Prod.fst ++ pending n') : AppendTaken h' s c := by
  have hbefore := (turned_conserves (Node.handle_turned hhandle)).mem_iff.2 hc
  rcases List.mem_append.1 hbefore with hc | hc
  · exact hmail c hc
  · exact (hacc.waits c hc).mono hsub (List.prefix_refl _)

/-- The append request a handled message carries was made for its call. -/
theorem Accounted.append_of_mail {env : Env} {n' : Node} {eff : Effects} {m : Mail}
    {rest : List Mail} {msg : Msg} (hacc : Accounted h s) (hmail : s.thread.mailbox = m :: rest)
    (his : m.msg? = some msg) (hst : st ∈ h') (hbefore : st.before = s)
    (hturn : st.act.out.turn = some ⟨env, .msg msg, eff⟩) :
    ∀ resp ∈ receivedAt ⟨s.thread.node, ⟨env, .msg msg, eff⟩, n'⟩, AppendTaken h' s resp := by
  intro resp hresp
  cases m with
  | shutdown => exact nomatch his
  | voteReceived | appendEntriesResp =>
      obtain rfl := Option.some.inj his
      exact absurd hresp List.not_mem_nil
  | request req resp' =>
      obtain rfl := Option.some.inj his
      obtain ⟨rpc, hrpc, haccept⟩ := hacc.mail req resp' (hmail ▸ List.mem_cons_self)
      obtain rfl := eq_rpcOf haccept
      match req with
      | .client (.append streamId events) =>
          obtain rfl := List.mem_singleton.1 hresp
          have hhead : st.before.thread.mailbox.head? =
              some (.request (.client (.append streamId events)) resp) := by
            rw [hbefore, hmail, List.head?_cons]
          exact ⟨streamId, events, hrpc, st, hst, _, hhead, hturn, rfl⟩
      | .requestVote .. | .appendEntries .. | .client (.read _) | .client .status =>
          exact absurd hresp List.not_mem_nil

/-- What leaves the channels in a step of the loop is what their calls may return. -/
theorem Accounted.replies (hacc : Accounted h s) (hnext : s.thread.next l thread)
    (hown : ∀ m, l.act ≠ .send m) (hsub : h ⊆ h') (hst : st ∈ h') (hbefore : st.before = s)
    (hout : st.act.out = l.out) {x : Sender × Reply} (hx : x ∈ l.out.replies) :
    ∃ rpc req, s.asked[x.1]? = some rpc ∧ rpc.accept = .inr req ∧
      Answers h' (thread.phase = .ended) x.1 rpc (req.result x.2) := by
  have hanswer : ∀ {env i n' eff}, s.thread.node.handle env i = some (n', eff) →
      st.act.out.turn = some ⟨env, i, eff⟩ →
      (∀ resp ∈ receivedAt ⟨s.thread.node, ⟨env, i, eff⟩, n'⟩, AppendTaken h' s resp) →
      x ∈ eff.answers.map (fun a => (a.1, Reply.append a.2)) →
      ∃ rpc req, s.asked[x.1]? = some rpc ∧ rpc.accept = .inr req ∧
        Answers h' (thread.phase = .ended) x.1 rpc (req.result x.2) := by
    intro env i n' eff hhandle hturn hmail hanswers
    obtain ⟨a, ha, rfl⟩ := List.mem_map.1 hanswers
    obtain ⟨streamId, events, hrpc, st₀, hst₀, t, htakes⟩ :=
      hacc.append_of_channel hsub hhandle hmail (List.mem_append_left _ (List.mem_map_of_mem ha))
    exact ⟨_, _, hrpc, rfl, .of_answer hst₀ htakes hst ⟨hturn, hout ▸ hx⟩ ha⟩
  have hdropped : ∀ done, thread = (s.thread.exit done).1 →
      x ∈ (s.thread.exit done).2.replies →
      ∃ rpc req, s.asked[x.1]? = some rpc ∧ rpc.accept = .inr req ∧
        Answers h' (thread.phase = .ended) x.1 rpc (req.result x.2) := by
    rintro done rfl hx
    obtain ⟨c, hc, rfl⟩ := List.mem_map.1 hx
    have hlive : s.thread.phase ≠ .ended := fun hended => by
      rw [held_of_ended hended] at hc
      exact absurd hc List.not_mem_nil
    rw [held_of_live hlive] at hc
    have hrpc : ∃ rpc req, s.asked[c]? = some rpc ∧ rpc.accept = .inr req := by
      rcases List.mem_append.1 hc with hc | hc
      · obtain ⟨m, hm, hcm⟩ := List.mem_flatMap.1 hc
        cases m with
        | request req resp =>
            obtain rfl := List.mem_singleton.1 hcm
            obtain ⟨rpc, hrpc, haccept⟩ := hacc.mail _ _ hm
            exact ⟨rpc, req, hrpc, haccept⟩
        | _ => exact absurd hcm List.not_mem_nil
      · obtain ⟨streamId, events, hrpc, _⟩ := hacc.waits c hc
        exact ⟨_, _, hrpc, rfl⟩
    obtain ⟨rpc, req, hrpc, haccept⟩ := hrpc
    exact ⟨rpc, req, hrpc, haccept, .gone rfl haccept (Or.inr rfl)⟩
  cases Thread.next_moved hnext with
  | sent => exact absurd rfl (hown _)
  | passed => exact absurd hx List.not_mem_nil
  | checked _ _ _ _ _ handle | timedOut _ _ _ _ _ handle =>
      exact hanswer handle (congrArg Outcome.turn hout) (fun _ h => absurd h List.not_mem_nil) hx
  | @handled env done m rest msg n eff _ mail _ _ _ is handle =>
      have hturn : st.act.out.turn = some ⟨env, .msg msg, eff⟩ := congrArg Outcome.turn hout
      rcases List.mem_append.1 hx with hreplied | hanswered
      · cases m with
        | request req resp =>
            obtain rfl := Option.some.inj is
            obtain ⟨rpc, hrpc, haccept⟩ := hacc.mail req resp (mail ▸ List.mem_cons_self)
            obtain rfl := eq_rpcOf haccept
            have htakes : Takes st resp req ⟨env, .msg (req.msg resp), eff⟩ :=
              ⟨by rw [hbefore, mail, List.head?_cons], hturn, rfl⟩
            obtain ⟨rfl, hanswers⟩ := Answers.of_replied hst htakes hreplied (hout ▸ hx)
            exact ⟨_, req, hrpc, haccept, hanswers⟩
        | _ => exact absurd hreplied List.not_mem_nil
      · exact hanswer handle hturn (hacc.append_of_mail mail is hst hbefore hturn) hanswered
  | stopped => exact hdropped _ rfl hx
  | disconnected => exact hdropped _ rfl hx

/-- A call keeps its number when others come. -/
theorem asked_append (rpc : Rpc) {c : ℕ} {rpc' : Rpc} (hrpc : s.asked[c]? = some rpc') :
    (s.asked ++ [rpc])[c]? = some rpc' :=
  getElem?_of_isPrefix (List.prefix_append _ _) hrpc

/-- What has returned stays answered when steps and calls are added. -/
theorem Accounted.answered_mono (hacc : Accounted h s) (hsub : h ⊆ h') {asked : List Rpc}
    (hasked : s.asked <+: asked) {P : Prop} (hP : s.thread.phase = .ended → P) {x : ℕ × RpcResult}
    (hx : x ∈ s.results) : ∃ rpc, asked[x.1]? = some rpc ∧ Answers h' P x.1 rpc x.2 := by
  obtain ⟨rpc, hrpc, hanswers⟩ := hacc.answered x hx
  exact ⟨rpc, getElem?_of_isPrefix hasked hrpc, hanswers.mono hsub hP⟩

/-- A call that returns at once. -/
theorem Accounted.returned (hacc : Accounted h s) (hsub : h ⊆ h') {rpc : Rpc} {result : RpcResult}
    (hanswers : Answers h' (s.thread.phase = .ended) s.asked.length rpc result) :
    Accounted h'
      { s with asked := s.asked ++ [rpc], results := s.results ++ [(s.asked.length, result)] } := by
  constructor
  case mail =>
    intro req c hm
    obtain ⟨rpc', hrpc, haccept⟩ := hacc.mail req c hm
    exact ⟨rpc', asked_append rpc hrpc, haccept⟩
  case waits => exact fun c hc => (hacc.waits c hc).mono hsub (List.prefix_append _ _)
  case conserved =>
    refine List.perm_iff_count.2 fun c => ?_
    have hcount := hacc.conserved.count_eq c
    simp only [List.map_append, List.map_cons, List.map_nil, List.length_append, List.length_cons,
      List.length_nil, List.range_succ, List.count_append] at hcount ⊢
    omega
  case answered =>
    intro x hx
    rcases List.mem_append.1 hx with hx | hx
    · exact hacc.answered_mono hsub (List.prefix_append _ _) id hx
    · obtain rfl := List.mem_singleton.1 hx
      exact ⟨rpc, List.getElem?_concat_length, hanswers⟩

/-- A call that hands its channel to the thread. -/
theorem Accounted.queued (hacc : Accounted h s) (hsub : h ⊆ h') {rpc : Rpc} {req : Request}
    (haccept : rpc.accept = .inr req)
    (hsend : s.thread.next ⟨.send (.request req s.asked.length), {}⟩ thread) :
    Accounted h' { s with thread, asked := s.asked ++ [rpc] } := by
  cases Thread.next_moved hsend with
  | sent live =>
      constructor
      case mail =>
        intro req' c hm
        rcases List.mem_append.1 hm with hm | hm
        · obtain ⟨rpc', hrpc, haccept'⟩ := hacc.mail req' c hm
          exact ⟨rpc', asked_append rpc hrpc, haccept'⟩
        · obtain ⟨rfl, rfl⟩ := Mail.request.inj (List.mem_singleton.1 hm)
          exact ⟨rpc, List.getElem?_concat_length, haccept⟩
      case waits => exact fun c hc => (hacc.waits c hc).mono hsub (List.prefix_append _ _)
      case conserved =>
        have hconserved := hacc.conserved
        rw [held_of_live live] at hconserved
        rw [held_of_live (by exact live)]
        refine List.perm_iff_count.2 fun c => ?_
        have hcount := hconserved.count_eq c
        simp only [List.length_append, List.length_cons, List.length_nil, List.range_succ,
          List.count_append, List.flatMap_append, List.flatMap_cons, List.flatMap_nil,
          Mail.channels, List.append_nil] at hcount ⊢
        omega
      case answered => exact fun x hx => hacc.answered_mono hsub (List.prefix_append _ _) id hx

/-- A message that carries no channel. -/
theorem Accounted.posted (hacc : Accounted h s) (hsub : h ⊆ h') {p : Post}
    (hsend : s.thread.next ⟨.send p.mail, {}⟩ thread) : Accounted h' { s with thread } := by
  cases Thread.next_moved hsend with
  | sent live =>
      constructor
      case mail =>
        intro req c hm
        rcases List.mem_append.1 hm with hm | hm
        · exact hacc.mail req c hm
        · cases p <;> exact nomatch List.mem_singleton.1 hm
      case waits => exact fun c hc => (hacc.waits c hc).mono hsub (List.prefix_refl _)
      case conserved =>
        have hconserved := hacc.conserved
        rw [held_of_live live] at hconserved
        rw [held_of_live (by exact live)]
        have hnone : p.mail.channels = [] := by cases p <;> rfl
        rwa [List.flatMap_append, List.flatMap_cons, hnone, List.flatMap_nil, List.append_nil,
          List.append_nil]
      case answered => exact fun x hx => hacc.answered_mono hsub (List.prefix_refl _) id hx

/-- A message that comes too late changes nothing. -/
theorem Accounted.ignored (hacc : Accounted h s) (hsub : h ⊆ h') : Accounted h' s where
  mail := hacc.mail
  waits c hc := (hacc.waits c hc).mono hsub (List.prefix_refl _)
  conserved := hacc.conserved
  answered _ hx := hacc.answered_mono hsub (List.prefix_refl _) id hx

/-- The reply of a call with a request makes it return. -/
theorem returned_of_accept {x : Sender × Reply} {rpc : Rpc} {req : Request}
    (hrpc : s.asked[x.1]? = some rpc) (haccept : rpc.accept = .inr req) :
    s.returned x = some (x.1, req.result x.2) := by
  rw [Service.returned, hrpc, Option.bind_eq_bind, Option.bind_some, haccept]
  rfl

/-- Where the replies are those of calls with requests, each makes its call return. -/
theorem map_fst_returned {replies : List (Sender × Reply)}
    (h : ∀ x ∈ replies, ∃ rpc req, s.asked[x.1]? = some rpc ∧ rpc.accept = .inr req) :
    (replies.filterMap s.returned).map Prod.fst = replies.map Prod.fst := by
  induction replies with
  | nil => rfl
  | cons x replies ih =>
      rw [List.forall_mem_cons] at h
      obtain ⟨⟨rpc, req, hrpc, haccept⟩, hrest⟩ := h
      rw [List.filterMap_cons_some (returned_of_accept hrpc haccept), List.map_cons, List.map_cons,
        ih hrest]

/-- A step of the loop. -/
theorem Accounted.lapped (hacc : Accounted h s) (hnext : s.thread.next l thread)
    (hown : ∀ m, l.act ≠ .send m) (hsub : h ⊆ h') (hst : st ∈ h') (hbefore : st.before = s)
    (hout : st.act.out = l.out) :
    Accounted h'
      { s with thread, results := s.results ++ l.out.replies.filterMap s.returned } := by
  have hreplies := fun x (hx : x ∈ l.out.replies) =>
    hacc.replies hnext hown hsub hst hbefore hout hx
  constructor
  case mail => exact fun req c hm => hacc.mail req c (mailbox_subset hnext hown hm)
  case waits =>
    intro c hc
    cases Thread.next_moved hnext with
    | sent => exact absurd rfl (hown _)
    | passed | stopped | disconnected => exact (hacc.waits c hc).mono hsub (List.prefix_refl _)
    | checked _ _ _ _ _ handle | timedOut _ _ _ _ _ handle =>
        exact hacc.append_of_channel hsub handle (fun _ hr => absurd hr List.not_mem_nil)
          (List.mem_append_right _ hc)
    | handled _ mail _ _ _ is handle =>
        exact hacc.append_of_channel hsub handle
          (hacc.append_of_mail mail is hst hbefore (congrArg Outcome.turn hout))
          (List.mem_append_right _ hc)
  case conserved =>
    have hfst := map_fst_returned fun x hx => by
      obtain ⟨rpc, req, hrpc, haccept, _⟩ := hreplies x hx
      exact ⟨rpc, req, hrpc, haccept⟩
    refine List.perm_iff_count.2 fun c => ?_
    have hcount := hacc.conserved.count_eq c
    have hstep := (held_conserved hnext hown).count_eq c
    simp only [List.map_append, List.count_append, hfst] at hcount hstep ⊢
    omega
  case answered =>
    intro x hx
    rcases List.mem_append.1 hx with hx | hx
    · exact hacc.answered_mono hsub (List.prefix_refl _)
        (fun hended => absurd hended (Thread.live_of_next hnext)) hx
    · obtain ⟨y, hy, hret⟩ := List.mem_filterMap.1 hx
      obtain ⟨rpc, req, hrpc, haccept, hanswers⟩ := hreplies y hy
      rw [returned_of_accept hrpc haccept] at hret
      obtain rfl := Option.some.inj hret
      exact ⟨rpc, hrpc, hanswers⟩

end

/-- **Every run accounts for its calls.** -/
theorem accounted_of_run {id : NodeId} {seeds : List Seed} {now : ℕ}
    {h : List (Step Service Event)} {s : Service} (hrun : ServiceRun id seeds now h s) :
    Accounted h s := by
  induction hrun with
  | nil =>
      exact ⟨fun _ _ hm => absurd hm List.not_mem_nil, fun _ hc => absurd hc List.not_mem_nil,
        .refl _, fun _ hx => absurd hx List.not_mem_nil⟩
  | @cons h s e s' _ hnext ih =>
      have hsub : h ⊆ ⟨s, e, s'⟩ :: h := List.subset_cons_self _ _
      cases Service.next_moved hnext with
      | settled accept => exact ih.returned hsub (.settled accept)
      | queued accept send => exact ih.queued hsub accept send
      | down accept ended => exact ih.returned hsub (.gone ended accept (Or.inl rfl))
      | posted send => exact ih.posted hsub send
      | ignored => exact ih.ignored hsub
      | lapped own lap => exact ih.lapped lap own hsub List.mem_cons_self rfl rfl

/-- **Every call returns once.**  In every run, whatever order calls, posts and steps of the
loop come in, a call has returned exactly once or the thread holds its channel exactly once;
once the thread has ended, every call has returned. -/
theorem calls_return_once {id : NodeId} {seeds : List Seed} {now : ℕ}
    {h : List (Step Service Event)} {s : Service} (hrun : ServiceRun id seeds now h s) :
    ReturnsOnce s := by
  have hacc := accounted_of_run hrun
  have hone : ∀ c < s.asked.length,
      (s.results.map Prod.fst).count c + s.thread.held.count c = 1 := by
    intro c hc
    rw [← List.count_append, hacc.conserved.count_eq]
    exact List.count_eq_one_of_mem List.nodup_range (List.mem_range.2 hc)
  constructor
  case once =>
    intro c hc
    have hsum := hone c hc
    omega
  case only =>
    intro x hx
    obtain ⟨rpc, hrpc, _⟩ := hacc.answered x hx
    exact (List.getElem?_eq_some_iff.1 hrpc).1
  case ended =>
    intro hended c hc
    have hsum := hone c hc
    rwa [held_of_ended hended, List.count_nil, Nat.add_zero] at hsum

/-- Calls around the end of a thread: one that lacks an id, three that reach the mailbox before
`Shutdown` and one behind it, and one that finds the thread gone. -/
def lastCalls : List ServiceAction :=
  [.call (.requestVote 1 none 0 0), .call .status, .call (.append "s" [[1]]),
    .call (.requestVote 1 (some (localhost 2114)) 0 0), .post .shutdown, .call (.read "s"),
    .lap (.check 0 ⟨0, 150⟩ 0 0), .lap (.receive ⟨1, 150⟩ 1),
    .lap (.check 1 ⟨1, 150⟩ 1 1), .lap (.receive ⟨2, 150⟩ 2),
    .lap (.check 2 ⟨2, 150⟩ 2 2), .lap (.receive ⟨3, 150⟩ 3),
    .lap (.check 3 ⟨3, 150⟩ 3 3), .lap (.receive ⟨4, 150⟩ 4), .call (.read "s")]

/-- What these calls return, in order. -/
def lastResults : List (ℕ × RpcResult) :=
  [(0, .error ⟨.invalidArgument, "Candidate id is not provided"⟩),
    (1, .ok (.status "127.0.0.1" 2113 0 "follower" 0 0 "" 0)),
    (2, .error ⟨.failedPrecondition, "not-leader"⟩), (3, .ok (.vote 1 true)),
    (4, .error ⟨.unavailable, "Unexpected error when looking for stream 's'"⟩),
    (5, .error ⟨.unavailable, "Node is down"⟩)]

theorem exists_lastCalls : ∃ h s,
    ServiceRun (localhost 2113) (Config.trio.seeds (localhost 2113)) 0 h s ∧
      s.thread.phase = .ended ∧ s.results = lastResults :=
  ServiceRun.exists_of_replay _ _ lastCalls
    (fun _ s => s.thread.phase = .ended ∧ s.results = lastResults) (by decide +kernel)

/-- All six calls have returned when the thread has ended. -/
theorem calls_return_once_shutdown : ∃ h s,
    ServiceRun (localhost 2113) (Config.trio.seeds (localhost 2113)) 0 h s ∧
      s.results = lastResults ∧ ReturnsOnce s := by
  obtain ⟨h, s, hrun, _, hresults⟩ := exists_lastCalls
  exact ⟨h, s, hrun, hresults, calls_return_once hrun⟩

end Safety
end RaftPlayground
