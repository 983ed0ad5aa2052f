/-
# What becomes of an append request

A request to append waits on a channel until the node answers it: at once when it
does not lead or has no peers, when its last entry is replicated on every peer,
or, with no index, when the node wins its next election.  Nothing else drops a
waiting request: the one handler that rebuilds `inflights` answers what it takes
out, and stepping down leaves the list as it is.

So, over any run of a node, the requests received are those answered and those
waiting (`AnswersOnce.conserved`).  `Accepted` says where a waiting request comes
from: a turn of a leader, with no election won since.
-/

import RaftPlayground.Safety.Conditions
import RaftPlayground.Server.Move

namespace RaftPlayground
namespace Safety

open Protocol Server

/-- The channel of the append request a turn starts with. -/
def receivedAt (t : Step Node Turn) : List Sender :=
  match t.act.input with
  | .msg (.appendStream _ _ resp) => [resp]
  | _ => []

/-- The channels of the append requests received so far. -/
def received (ts : List (Step Node Turn)) : List Sender := ts.flatMap receivedAt

/-- The channels answered so far, once for every answer. -/
def answered (ts : List (Step Node Turn)) : List Sender :=
  ts.flatMap fun t => t.act.effects.answers.map Prod.fst

/-- The channels that wait in `inflights`. -/
def pending (n : Node) : List Sender := n.volatile.inflights.map Prod.snd

/-- The turn executes `switch_to_leader`. -/
def Switches (t : Step Node Turn) : Prop :=
  t.before.volatile.status ≠ .leader ∧ t.after.volatile.status = .leader

/-- A leader receives an append request on the channel, whose last entry gets the
index: the last index at receipt and one more for each event. -/
def Accepts (t : Step Node Turn) (index : ℕ) (resp : Sender) : Prop :=
  ∃ streamId events, t.act.input = .msg (.appendStream streamId events resp) ∧
    t.before.volatile.status = .leader ∧
      index = t.before.persistent.entries.lastIndex + events.length

/-- A leader accepted the request, and the node has not switched to leader since. -/
def Accepted : List (Step Node Turn) → ℕ → Sender → Prop
  | [], _, _ => False
  | t :: ts, index, resp => Accepts t index resp ∨ (¬ Switches t ∧ Accepted ts index resp)

/-- **The fate of append requests.** -/
structure AnswersOnce (ts : List (Step Node Turn)) (n : Node) : Prop where
  /-- Received is answered and waiting, as multisets. -/
  conserved : (received ts).Perm (answered ts ++ pending n)
  /-- With a channel of its own, a request is answered exactly once or waits exactly once. -/
  once : (received ts).Nodup → ∀ resp ∈ received ts,
    ((answered ts).count resp = 1 ∧ (pending n).count resp = 0) ∨
      ((answered ts).count resp = 0 ∧ (pending n).count resp = 1)
  /-- A node that does not lead refuses at once and stores nothing. -/
  refused : ∀ t ∈ ts, ∀ streamId events resp,
    t.act.input = .msg (.appendStream streamId events resp) → t.before.volatile.status ≠ .leader →
      t.act.effects.answers = [(resp, none)] ∧
        t.after.persistent.entries = t.before.persistent.entries
  /-- An index is answered for a request of the same leadership, with its last index. -/
  confirmed : ∀ t ts', (t :: ts') <:+ ts → ∀ resp index,
    (resp, some index) ∈ t.act.effects.answers → Accepted (t :: ts') index resp
  /-- Switching to leader refuses everything that waits. -/
  switched : ∀ t ∈ ts, Switches t →
    t.act.effects.answers = t.before.volatile.inflights.map (fun x => (x.2, none)) ∧
      t.after.volatile.inflights = []

section

variable {env : Env} {n n' : Node} {i : Input} {eff : Effects}

theorem receivedAt_of_quiet (h : i.Quiet) : receivedAt ⟨n, ⟨env, i, eff⟩, n'⟩ = [] := by
  unfold receivedAt
  split
  · simp_all [Input.Quiet]
  · rfl

/-- A list splits into what a test takes and what it leaves. -/
theorem perm_filter_append (l : List (ℕ × Sender)) (p : ℕ × Sender → Prop) [DecidablePred p] :
    (l.map Prod.snd).Perm
      ((l.filter fun x => p x).map Prod.snd ++ (l.filter fun x => ¬ p x).map Prod.snd) := by
  rw [← List.map_append]
  refine (List.Perm.map _ ?_).symm
  simp only [decide_not]
  exact List.filter_append_perm (fun x => decide (p x)) l

/-- **One turn conserves the requests**: what waits and what comes in is what is
answered and what waits afterwards. -/
theorem turned_conserves (ht : n.Turned env i n' eff) :
    (receivedAt ⟨n, ⟨env, i, eff⟩, n'⟩ ++ pending n).Perm
      (eff.answers.map Prod.fst ++ pending n') := by
  cases ht with
  | idle quiet silent => rw [receivedAt_of_quiet quiet, silent.2.2.1]; rfl
  | elected =>
      simp only [receivedAt, pending, Node.switchToLeader_answers, Node.switchToLeader_inflights,
        List.map_map, List.nil_append, List.map_nil, List.append_nil]
      exact .refl _
  | @advanced _ _ _ seeds =>
      simp only [receivedAt, pending, List.map_map, List.nil_append]
      exact perm_filter_append n.volatile.inflights
        fun x => x.1 ≤ seeds.computeLowestReplicatedIndex
  | appendRefused => exact .refl _
  | appendStored => exact .refl _
  | appendPending =>
      simp only [receivedAt, pending, List.map_append, List.map_nil, List.nil_append]
      exact List.perm_append_comm
  | _ => exact .refl _

/-- What a turn does to the requests that wait, and what it confirms. -/
inductive Fate (t : Step Node Turn) : Prop
  /-- It switches to leader and refuses all. -/
  | switched (switches : Switches t)
      (answers : t.act.effects.answers = t.before.volatile.inflights.map fun x => (x.2, none))
      (inflights : t.after.volatile.inflights = [])
  /-- What waits afterwards waited before or came in, and so for what it confirms. -/
  | kept (stays : ¬ Switches t)
      (waits : ∀ x ∈ t.after.volatile.inflights,
        x ∈ t.before.volatile.inflights ∨ Accepts t x.1 x.2)
      (confirms : ∀ resp index, (resp, some index) ∈ t.act.effects.answers →
        (index, resp) ∈ t.before.volatile.inflights ∨ Accepts t index resp)

/-- A turn that leaves the waiting requests and the leadership alone. -/
theorem Fate.same {t : Step Node Turn}
    (hstatus : t.after.volatile.status = t.before.volatile.status ∨
      t.after.volatile.status ≠ .leader)
    (hinflights : t.after.volatile.inflights = t.before.volatile.inflights)
    (hanswers : ∀ resp index, (resp, some index) ∉ t.act.effects.answers) : Fate t := by
  have hstays : ¬ Switches t := by
    rintro ⟨hbefore, hafter⟩
    rcases hstatus with h | h
    · exact hbefore (h ▸ hafter)
    · exact h hafter
  have hwaits : ∀ x ∈ t.after.volatile.inflights,
      x ∈ t.before.volatile.inflights ∨ Accepts t x.1 x.2 := by
    intro x hx
    exact Or.inl (hinflights ▸ hx)
  exact .kept hstays hwaits fun resp index hmem => absurd hmem (hanswers resp index)

/-- **The fate of the requests in one turn.** -/
theorem turned_fate (ht : n.Turned env i n' eff) (hfits : IndexFits n i) :
    Fate ⟨n, ⟨env, i, eff⟩, n'⟩ := by
  cases ht with
  | idle quiet silent =>
      exact .same (Or.inl rfl) rfl fun _ _ h => by
        rw [silent.2.2.1] at h
        simp at h
  | elected lead => exact .switched ⟨lead, rfl⟩ rfl rfl
  | advanced lead found =>
      refine .kept (fun hs => hs.1 lead) (fun x hx => Or.inl (List.mem_of_mem_filter hx)) ?_
      intro resp index hmem
      obtain ⟨x, hx, heq⟩ := List.mem_map.1 hmem
      obtain ⟨rfl, hindex⟩ := Prod.mk.inj heq
      obtain rfl := Option.some.inj hindex
      exact Or.inl (List.mem_of_mem_filter hx)
  | appendRefused => exact .same (Or.inl rfl) rfl fun _ _ h => by simp at h
  | @appendStored streamId events resp es index lead store =>
      have hindex : index = n.persistent.entries.lastIndex + events.length := by
        rw [eq_lastGiven store, lastGiven_of_lt (hfits lead)]
      refine .kept (fun hs => hs.1 lead) (fun x hx => Or.inl hx) ?_
      intro resp' index' hmem
      obtain ⟨rfl, heq⟩ := Prod.mk.inj (List.mem_singleton.1 hmem)
      obtain rfl := Option.some.inj heq
      exact Or.inr ⟨streamId, events, rfl, lead, hindex⟩
  | @appendPending streamId events resp es index lead store =>
      have hindex : index = n.persistent.entries.lastIndex + events.length := by
        rw [eq_lastGiven store, lastGiven_of_lt (hfits lead)]
      refine .kept (fun hs => hs.1 lead) (fun x hx => ?_) fun _ _ h => absurd h List.not_mem_nil
      rcases List.mem_append.1 hx with hx | hx
      · exact Or.inl hx
      · obtain rfl := List.mem_singleton.1 hx
        exact Or.inr ⟨streamId, events, rfl, lead, hindex⟩
  | candidacy | voteGranted | outrun | entriesUnknown | entriesEmpty | entriesStored =>
      refine .same (Or.inr ?_) rfl fun _ _ h => absurd h List.not_mem_nil
      simp
  | _ => exact .same (Or.inl rfl) rfl fun _ _ h => absurd h List.not_mem_nil

/-- A node that does not lead refuses an append request. -/
theorem turned_refuses {streamId : String} {events : List Bytes} {resp : Sender}
    (ht : n.Turned env (.msg (.appendStream streamId events resp)) n' eff)
    (hlead : n.volatile.status ≠ .leader) :
    eff.answers = [(resp, none)] ∧ n'.persistent.entries = n.persistent.entries := by
  cases ht with
  | idle quiet => exact quiet.elim
  | appendRefused => exact ⟨rfl, rfl⟩
  | appendStored lead | appendPending lead => exact absurd lead hlead

end

/-- What the past of a node says about the requests that wait. -/
structure Requested (ts : List (Step Node Turn)) (n : Node) : Prop where
  conserved : (received ts).Perm (answered ts ++ pending n)
  waiting : ∀ x ∈ n.volatile.inflights, Accepted ts x.1 x.2

/-- Over every run what was received is what was answered and what waits. -/
theorem conserved_of_run {id : NodeId} {seeds : List Seed} {now : ℕ}
    {ts : List (Step Node Turn)} {n : Node} (hrun : NodeRun id seeds now ts n) :
    (received ts).Perm (answered ts ++ pending n) := by
  induction hrun with
  | nil => exact .refl _
  | @cons ts n t n' _ hnext ih =>
      obtain ⟨env, i, eff⟩ := t
      refine List.perm_iff_count.2 fun r => ?_
      have hold := ih.count_eq r
      have hnew := (turned_conserves (Node.handle_turned hnext)).count_eq r
      simp only [received, answered, List.flatMap_cons, List.count_append] at hold hnew ⊢
      omega

theorem waiting_of_run {id : NodeId} {seeds : List Seed} {now : ℕ}
    {ts : List (Step Node Turn)} {n : Node} (hrun : NodeRun id seeds now ts n)
    (hfits : ∀ t ∈ ts, IndexFits t.before t.act.input) :
    ∀ x ∈ n.volatile.inflights, Accepted ts x.1 x.2 := by
  refine Run.invariant (fun t => IndexFits t.before t.act.input)
    (fun ts n => ∀ x ∈ n.volatile.inflights, Accepted ts x.1 x.2)
    (fun _ h => absurd h List.not_mem_nil) ?_ hrun hfits
  intro ts n t n' _ hwaiting hnext hfit x hx
  cases turned_fate (Node.handle_turned hnext) hfit with
  | switched _ _ inflights =>
      have hnone : n'.volatile.inflights = [] := inflights
      rw [hnone] at hx
      simp at hx
  | kept stays waits =>
      rcases waits x hx with hx | hx
      · exact Or.inr ⟨stays, hwaiting x hx⟩
      · exact Or.inl hx

theorem requested_of_run {id : NodeId} {seeds : List Seed} {now : ℕ} {ts : List (Step Node Turn)}
    {n : Node} (hrun : NodeRun id seeds now ts n)
    (hfits : ∀ t ∈ ts, IndexFits t.before t.act.input) : Requested ts n :=
  ⟨conserved_of_run hrun, waiting_of_run hrun hfits⟩

/-- **Every append request is answered at most once, in the leadership that
accepted it**, over every run of a node whose indices stay below the end of `u64`. -/
theorem append_answered_once {id : NodeId} {seeds : List Seed} {now : ℕ}
    {ts : List (Step Node Turn)} {n : Node} (hrun : NodeRun id seeds now ts n)
    (hfits : ∀ t ∈ ts, IndexFits t.before t.act.input) : AnswersOnce ts n := by
  have hreq := requested_of_run hrun hfits
  constructor
  case conserved => exact hreq.conserved
  case once =>
    intro hnd resp hresp
    have hone : (received ts).count resp = 1 := List.count_eq_one_of_mem hnd hresp
    rw [hreq.conserved.count_eq, List.count_append] at hone
    omega
  case refused =>
    intro t ht streamId events resp hi hlead
    obtain ⟨_, _, _, hnext⟩ := hrun.step_of_mem ht
    have hturned := Node.handle_turned hnext
    rw [hi] at hturned
    exact turned_refuses hturned hlead
  case confirmed =>
    intro t ts' hsuf resp index hmem
    cases hrun.of_suffix hsuf with
    | cons hrun' hnext =>
        have hfits' : ∀ s ∈ ts', IndexFits s.before s.act.input :=
          fun s hs => hfits s (hsuf.subset (List.mem_cons_of_mem _ hs))
        have hfit := hfits _ (hsuf.subset List.mem_cons_self)
        cases turned_fate (Node.handle_turned hnext) hfit with
        | switched _ answers =>
            rw [answers, List.mem_map] at hmem
            obtain ⟨_, _, heq⟩ := hmem
            exact nomatch (Prod.mk.inj heq).2
        | kept stays _ confirms =>
            rcases confirms resp index hmem with hwait | hnow
            · have haccepted := (requested_of_run hrun' hfits').waiting _ hwait
              exact Or.inr ⟨stays, haccepted⟩
            · exact Or.inl hnow
  case switched =>
    intro t ht hswitch
    obtain ⟨_, _, _, hnext⟩ := hrun.step_of_mem ht
    cases turned_fate (Node.handle_turned hnext) (hfits t ht) with
    | switched _ answers inflights => exact ⟨answers, inflights⟩
    | kept stays => exact absurd hswitch stays

/-- The request of two events is answered when both peers have confirmed it. -/
theorem append_answered_once_replication :
    ∃ ts n, NodeRun (localhost 2113) (Config.trio.seeds (localhost 2113)) 0 ts n ∧
      (∃ t ∈ ts, t.act.effects.answers = [(0, some 2)]) ∧ AnswersOnce ts n := by
  obtain ⟨h, c, hrun, hfits, hans⟩ := ClusterRun.exists_of_replay .trio replication
    (fun h _ => (∀ st ∈ h, Cluster.Meets (fun _ => IndexFits) st) ∧
      ∃ t ∈ Cluster.turns (localhost 2113) h, t.act.effects.answers = [(0, some 2)])
    (by decide +kernel)
  have hturns := hrun.turns_run (localhost 2113)
  exact ⟨_, _, hturns, hans, append_answered_once hturns (Cluster.meets_turns hfits _)⟩

end Safety
end RaftPlayground
