/-
# Channels under other names

No handler looks at the channel a request waits on: it keeps the channel, or sends on it.  So a
node whose channels go by other names makes the same turns, with the answers on the channels of
these names (`Node.handle_rename`).

Two nodes that agree on all but the names of their channels are told apart by none of their
turns.  `anonymous` leaves the names out.
-/

import RaftPlayground.Server.Cluster

namespace RaftPlayground
namespace Server

open Protocol

variable (f : Sender → Sender)

/-- The node with its channels renamed. -/
def Node.rename (n : Node) : Node :=
  { n with
    volatile :=
      { n.volatile with inflights := n.volatile.inflights.map fun x => (x.1, f x.2) } }

/-- The effects with the channels of their answers renamed. -/
def Effects.rename (eff : Effects) : Effects :=
  { eff with answers := eff.answers.map fun a => (f a.1, a.2) }

/-- The message with its channel renamed. -/
def Msg.rename : Msg → Msg
  | appendStream streamId events resp => .appendStream streamId events (f resp)
  | m => m

/-- The input with its channel renamed. -/
def Input.rename : Input → Input
  | tick => .tick
  | msg m => .msg (m.rename f)

namespace Node

variable (n : Node) (env : Env)

/-- A tick of the renamed node. -/
theorem onTick_rename :
    (n.rename f).onTick env = ((n.onTick env).1.rename f, (n.onTick env).2.rename f) := by
  rw [onTick, onTick]
  show (if n.volatile.seeds.isEmpty = true then _ else if n.volatile.status = .leader then _ else
    if n.volatile.electionTimeoutElapsed env.now = true then _ else _) = _
  split_ifs <;> rfl

/-- A vote request to the renamed node: its answer names no channel. -/
theorem onRequestVote_rename (term : ℕ) (cand : NodeId) (lli llt : ℕ) :
    (n.rename f).onRequestVote term cand lli llt =
      ((n.onRequestVote term cand lli llt).1.rename f,
        (n.onRequestVote term cand lli llt).2) := by
  rw [onRequestVote, onRequestVote]
  dsimp only
  show (if n.persistent.term > term then _ else
    if n.persistent.term < term ∨ n.volatile.votedFor = none then
      if n.persistent.entries.lastIndex ≤ lli ∧ n.persistent.entries.lastTerm ≤ llt then _ else _
    else _) = _
  split_ifs <;> rfl

/-- The renamed node wins: what it drains is answered on the new channels. -/
theorem switchToLeader_rename :
    (n.rename f).switchToLeader env =
      ((n.switchToLeader env).1.rename f, (n.switchToLeader env).2.rename f) := by
  have hanswers : ((n.rename f).switchToLeader env).2.answers =
      (n.switchToLeader env).2.answers.map fun a => (f a.1, a.2) := by
    simp [rename, Function.comp_def]
  have heffects : ((n.rename f).switchToLeader env).2 = (n.switchToLeader env).2.rename f := by
    rw [Effects.rename, ← hanswers]
    rfl
  exact Prod.ext rfl heffects

/-- A vote counted by the renamed node. -/
theorem onVoteReceived_rename (id : NodeId) (term : ℕ) (granted : Bool) :
    (n.rename f).onVoteReceived env id term granted =
      ((n.onVoteReceived env id term granted).1.rename f,
        (n.onVoteReceived env id term granted).2.rename f) := by
  rw [onVoteReceived, onVoteReceived]
  dsimp only
  by_cases hidle : n.persistent.term > term ∨ n.volatile.status = .leader
  · rw [if_pos hidle]
    exact if_pos hidle
  · rw [if_neg hidle]
    refine (if_neg hidle).trans ?_
    by_cases hlower : n.persistent.term < term
    · rw [if_pos hlower]
      exact if_pos hlower
    · rw [if_neg hlower]
      refine (if_neg hlower).trans ?_
      cases granted with
      | false => rfl
      | true =>
          rw [if_pos rfl, if_pos rfl]
          let v := { n.volatile with tally := insert id n.volatile.tally }
          by_cases hquorum : v.haveWeReachedQuorum = true
          · rw [if_pos hquorum]
            exact (if_pos hquorum).trans (switchToLeader_rename f { n with volatile := v } env)
          · rw [if_neg hquorum]
            exact if_neg hquorum

/-- A batch for the renamed node: its answer names no channel. -/
theorem onAppendEntries_rename (term : ℕ) (id : NodeId) (prev prevTerm commit : ℕ)
    (es : List Entry) :
    (n.rename f).onAppendEntries env term id prev prevTerm commit es =
      (n.onAppendEntries env term id prev prevTerm commit es).map
        fun r => (r.1.rename f, r.2) := by
  rw [onAppendEntries, onAppendEntries]
  by_cases hstale : n.persistent.term > term
  · rw [if_pos hstale]
    exact if_pos hstale
  · rw [if_neg hstale]
    refine (if_neg hstale).trans ?_
    have hfollow : (n.rename f).followLeader env term id = (n.followLeader env term id).rename f :=
      rfl
    dsimp only
    rw [hfollow]
    generalize n.followLeader env term id = m
    by_cases hknown : ¬ m.persistent.entries.containsLog prev prevTerm = true
    · rw [if_pos hknown]
      exact if_pos hknown
    · rw [if_neg hknown]
      refine (if_neg hknown).trans ?_
      by_cases hempty : es.isEmpty = true
      · rw [if_pos hempty, if_pos hempty]
        rfl
      · rw [if_neg hempty, if_neg hempty]
        cases es.getLast? with
        | none => rfl
        | some last =>
            show ((truncated m.persistent.entries term prev prevTerm).append es).bind _ =
              (((truncated m.persistent.entries term prev prevTerm).append es).bind _).map _
            cases (truncated m.persistent.entries term prev prevTerm).append es with
            | none => rfl
            | some stored => rfl

/-- A batch confirmed to the renamed node: what it answers goes to the new channels. -/
theorem onAppendEntriesResp_rename (id : NodeId) (batchEnd : Option ℕ)
    (resp : Option AppendEntriesResp) :
    onAppendEntriesResp (n.rename f).volatile id batchEnd resp =
      (onAppendEntriesResp n.volatile id batchEnd resp).map fun r =>
        (({ n with volatile := r.1 }.rename f).volatile, r.2.map fun a => (f a.1, a.2)) := by
  by_cases hlead : n.volatile.status ≠ .leader
  · rw [onAppendEntriesResp.eq_def, onAppendEntriesResp.eq_def, if_pos hlead]
    exact if_pos hlead
  · rw [onAppendEntriesResp.eq_def, onAppendEntriesResp.eq_def, if_neg hlead]
    refine (if_neg hlead).trans ?_
    match resp, batchEnd with
    | none, _ => rfl
    | some ⟨_, true⟩, none => rfl
    | some ⟨_, true⟩, some batchEnd =>
        show (n.volatile.seeds.nodeMut id _ _).bind _ =
          ((n.volatile.seeds.nodeMut id _ _).bind _).map _
        cases n.volatile.seeds.nodeMut id _ _ with
        | none => rfl
        | some seeds => simp [rename, List.filter_map, Function.comp_def]
    | some ⟨_, false⟩, _ =>
        show (n.volatile.seeds.nodeMut id _ _).bind _ =
          ((n.volatile.seeds.nodeMut id _ _).bind _).map _
        cases n.volatile.seeds.nodeMut id _ _ with
        | none => rfl
        | some seeds => rfl

/-- An append request to the renamed node, on a renamed channel. -/
theorem onAppendStream_rename (streamId : String) (events : List Bytes) (resp : Sender) :
    (n.rename f).onAppendStream streamId events (f resp) =
      ((n.onAppendStream streamId events resp).1.rename f,
        (n.onAppendStream streamId events resp).2.map fun a => (f a.1, a.2)) := by
  rw [onAppendStream, onAppendStream]
  by_cases hlead : n.volatile.status ≠ .leader
  · rw [if_pos hlead]
    exact if_pos hlead
  · rw [if_neg hlead]
    refine (if_neg hlead).trans ?_
    dsimp only
    by_cases halone : n.volatile.seeds.isEmpty = true
    · rw [if_pos halone]
      exact if_pos halone
    · rw [if_neg halone]
      refine (if_neg halone).trans ?_
      simp [rename]

/-- **Names do not matter.**  A node with its channels renamed makes the same turn. -/
theorem handle_rename (i : Input) :
    (n.rename f).handle env (i.rename f) =
      (n.handle env i).map fun r => (r.1.rename f, r.2.rename f) := by
  match i with
  | .tick => exact congrArg some (onTick_rename f n env)
  | .msg (.requestVote term cand lli llt) =>
      exact congrArg (fun r : Node × (ℕ × Bool) => some (r.1, ({ reply := some r.2 } : Effects)))
        (onRequestVote_rename f n term cand lli llt)
  | .msg (.appendEntries term id prev prevTerm commit es) =>
      show ((n.rename f).onAppendEntries env term id prev prevTerm commit es).bind _ =
        ((n.onAppendEntries env term id prev prevTerm commit es).bind _).map _
      rw [onAppendEntries_rename]
      cases n.onAppendEntries env term id prev prevTerm commit es with
      | none => rfl
      | some r => rfl
  | .msg (.voteReceived id term granted) =>
      exact congrArg some (onVoteReceived_rename f n env id term granted)
  | .msg (.appendEntriesResp id batchEnd resp) =>
      show (onAppendEntriesResp (n.rename f).volatile id batchEnd resp).bind _ =
        ((onAppendEntriesResp n.volatile id batchEnd resp).bind _).map _
      rw [onAppendEntriesResp_rename]
      cases onAppendEntriesResp n.volatile id batchEnd resp with
      | none => rfl
      | some r => rfl
  | .msg (.appendStream streamId events resp) =>
      exact congrArg
        (fun r : Node × List (Sender × Option ℕ) => some (r.1, ({ answers := r.2 } : Effects)))
        (onAppendStream_rename f n streamId events resp)
  | .msg (.readStream streamId) =>
      show (n.persistent.onReadStream streamId).bind _ =
        ((n.persistent.onReadStream streamId).bind _).map _
      cases n.persistent.onReadStream streamId with
      | none => rfl
      | some batch => rfl
  | .msg .status => rfl

end Node

/-- A node, without the names of its channels. -/
def Node.anonymous (n : Node) : Node := n.rename fun _ => 0

/-- An input, without the name of its channel. -/
def Input.anonymous (i : Input) : Input := i.rename fun _ => 0

/-- What a turn hands out, without the names of the channels. -/
def Effects.anonymous (eff : Effects) : Effects := eff.rename fun _ => 0

/-- A turn with the states around it, without the names of the channels. -/
def anonymous (t : Step Node Turn) : Step Node Turn :=
  ⟨t.before.anonymous, ⟨t.act.env, t.act.input.anonymous, t.act.effects.anonymous⟩,
    t.after.anonymous⟩

/-- **Nodes that differ in names make the same turns.** -/
theorem Node.exists_handle {n m n' : Node} {env : Env} {i j : Input} {eff : Effects}
    (hnode : m.anonymous = n.anonymous) (hinput : j.anonymous = i.anonymous)
    (hhandle : n.handle env i = some (n', eff)) :
    ∃ m' eff', m.handle env j = some (m', eff') ∧ m'.anonymous = n'.anonymous ∧
      eff'.anonymous = eff.anonymous := by
  have hsame : (m.handle env j).map (fun r => (r.1.anonymous, r.2.anonymous)) =
      some (n'.anonymous, eff.anonymous) := by
    have hm := Node.handle_rename (fun _ => 0) m env j
    have hn := Node.handle_rename (fun _ => 0) n env i
    rw [hhandle] at hn
    rw [show m.rename (fun _ => 0) = n.rename (fun _ => 0) from hnode,
      show j.rename (fun _ => 0) = i.rename (fun _ => 0) from hinput, hn] at hm
    exact hm.symm
  obtain ⟨⟨m', eff'⟩, hm, heq⟩ := Option.map_eq_some_iff.1 hsame
  obtain ⟨hnode', heffects⟩ := Prod.mk.inj heq
  exact ⟨m', eff', hm, hnode', heffects⟩

section

variable {n m : Node} {eff eff' : Effects}

/-- What two nodes have in common that differ in names. -/
theorem Node.persistent_of_anonymous (h : m.anonymous = n.anonymous) :
    m.persistent = n.persistent := by
  have hsame : m.anonymous.persistent = n.anonymous.persistent := congrArg Node.persistent h
  exact hsame

/-- Nodes that differ in the names of channels draw from one range. -/
theorem Node.range_of_anonymous (h : m.anonymous = n.anonymous) :
    m.volatile.electionTimeoutRange = n.volatile.electionTimeoutRange := by
  have hsame : m.anonymous.volatile.electionTimeoutRange =
      n.anonymous.volatile.electionTimeoutRange :=
    congrArg (fun n => n.volatile.electionTimeoutRange) h
  exact hsame

/-- What is sent to the peers has no names of channels in it. -/
theorem Effects.packets_of_anonymous (id : NodeId) (h : eff'.anonymous = eff.anonymous) :
    eff'.packets id = eff.packets id := by
  have hsame : eff'.anonymous.packets id = eff.anonymous.packets id :=
    congrArg (fun eff => eff.packets id) h
  exact hsame

/-- The answer to an RPC has no names of channels in it. -/
theorem Effects.reply_of_anonymous (h : eff'.anonymous = eff.anonymous) :
    eff'.reply = eff.reply := by
  have hsame : eff'.anonymous.reply = eff.anonymous.reply := congrArg Effects.reply h
  exact hsame

end

end Server
end RaftPlayground
