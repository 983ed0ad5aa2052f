/-
# The reports about a node

A worker learns the status of its node when it connects to it and whenever it waited for long
enough.  What it learned travels through its outbox and the mailbox of the console, among the events
of all the others, to the row of the node, and an item of the list of events reports every change.

None of it is lost, doubled or overtaken: what was learned is what was seen, what is in the mailbox
and what is in the outbox, in this order.  The row shows what was seen last, and the items about a
node, with those that no longer fit the view and the latest first, are what was seen without its
repetitions, over the `offline` it starts with (`reports_in_order`).
-/

import Mathlib.Data.List.Destutter
import RaftPlayground.Repl.Lifecycle

namespace RaftPlayground
namespace Repl

open Protocol
open Server (Bytes)

/-- The status an event brings of the node. -/
def ReplEvent.status? (i : ℕ) : ReplEvent → Option (Option StatusResp)
  | .nodeStatusReceived node status => if node = i then some status else none
  | .input _ | .notification .. | .streamRead .. | .statusRead .. => none

/-- The status an item reports of the node. -/
def Item.status? (i : ℕ) : Item → Option (Option String)
  | .node index status _ => if index = i then some status else none
  | .notification .. => none

/-- The statuses of the node among some events. -/
def statuses (i : ℕ) (events : List ReplEvent) : List (Option StatusResp) :=
  events.filterMap (ReplEvent.status? i)

/-- The statuses of the node among some items. -/
def reports (i : ℕ) (items : List Item) : List (Option String) := items.filterMap (Item.status? i)

/-- What the worker of the node has not sent yet. -/
def unsent (i : ℕ) (nodes : List Node) : List (Option StatusResp) :=
  nodes[i]?.elim [] fun n => statuses i n.worker.outbox

/-- What the worker of the node learns in a step. -/
def learnedIn (i : ℕ) (st : Step Console ConsoleAction) : List (Option StatusResp) :=
  match st.act with
  | .work j _ | .poll j _ => if j = i then unsent i st.after.nodes else []
  | .press _ | .handle _ | .send _ | .pong .. | .draw _ | .cleanup | .reap => []

/-- What the console sees of the node in a step. -/
def seenIn (i : ℕ) (st : Step Console ConsoleAction) : List (Option StatusResp) :=
  match st.act with
  | .handle _ => statuses i (st.before.mailbox.take 1)
  | .press _ | .work .. | .poll .. | .send _ | .pong .. | .draw _ | .cleanup | .reap => []

/-- The items that no longer fit the view in a step. -/
def lostIn (st : Step Console ConsoleAction) : List Item :=
  match st.act with
  | .draw _ => st.before.events.take (st.before.events.length - st.after.events.length)
  | .press _ | .handle _ | .work .. | .poll .. | .send _ | .pong .. | .cleanup | .reap => []

/-- What the worker of the node learned, the earliest first. -/
def learned (i : ℕ) (h : List (Step Console ConsoleAction)) : List (Option StatusResp) :=
  h.reverse.flatMap (learnedIn i)

/-- What the console saw of the node, the earliest first. -/
def seen (i : ℕ) (h : List (Step Console ConsoleAction)) : List (Option StatusResp) :=
  h.reverse.flatMap (seenIn i)

/-- The items that no longer fit the view, the earliest first. -/
def lost (h : List (Step Console ConsoleAction)) : List Item := h.reverse.flatMap lostIn

/-- What is true of the reports about a node. -/
structure Reported (i : ℕ) (h : List (Step Console ConsoleAction)) (c : Console) : Prop where
  inOrder : learned i h = seen i h ++ statuses i c.mailbox ++ unsent i c.nodes
  status : ∀ n, c.nodes[i]? = some n → n.status = (seen i h).getLast?.join
  items : (reports i (lost h ++ c.events)).reverse ++ [none] =
    ((seen i h).reverse.map (Option.map StatusResp.status) ++ [none]).destutter (· ≠ ·)

section

variable {i j : ℕ} {nodes : List Node} {n n' : Node} {h : List (Step Console ConsoleAction)}
  {st : Step Console ConsoleAction}

theorem learned_cons : learned i (st :: h) = learned i h ++ learnedIn i st := by
  simp [learned]

theorem seen_cons : seen i (st :: h) = seen i h ++ seenIn i st := by
  simp [seen]

theorem lost_cons : lost (st :: h) = lost h ++ lostIn st := by
  simp [lost]

theorem statuses_append (events new : List ReplEvent) :
    statuses i (events ++ new) = statuses i events ++ statuses i new :=
  List.filterMap_append

theorem reports_append (items new : List Item) :
    reports i (items ++ new) = reports i items ++ reports i new :=
  List.filterMap_append

theorem statuses_of_notification {notes : List ReplEvent}
    (h : ∀ event ∈ notes, ∃ msg type, event = ReplEvent.notification msg type) :
    statuses i notes = [] := by
  refine List.filterMap_eq_nil_iff.2 fun event hevent => ?_
  obtain ⟨msg, type, rfl⟩ := h event hevent
  rfl

theorem reports_of_notification {items : List Item}
    (h : ∀ item ∈ items, ∃ text color, item = Item.notification text color) :
    reports i items = [] := by
  refine List.filterMap_eq_nil_iff.2 fun item hitem => ?_
  obtain ⟨text, color, rfl⟩ := h item hitem
  rfl

/-- The events of a worker bring no status of another node. -/
theorem statuses_of_ne {events : List ReplEvent} (h : ∀ event ∈ events, event.Of j) (hij : i ≠ j) :
    statuses i events = [] := by
  refine List.filterMap_eq_nil_iff.2 fun event hevent => ?_
  cases event with
  | nodeStatusReceived node status =>
      have hnode : node = j := h _ hevent
      exact if_neg fun heq => hij (heq.symm.trans hnode)
  | input | notification | streamRead | statusRead => rfl

theorem unsent_set_ne (hij : i ≠ j) : unsent i (nodes.set j n') = unsent i nodes := by
  rw [unsent, List.getElem?_set_ne (Ne.symm hij), unsent]

theorem unsent_set_self (hn : nodes[i]? = some n) :
    unsent i (nodes.set i n') = statuses i n'.worker.outbox := by
  rw [unsent, List.getElem?_set_self (List.getElem?_eq_some_iff.1 hn).1, Option.elim_some]

theorem unsent_eq (hn : nodes[i]? = some n) : unsent i nodes = statuses i n.worker.outbox := by
  rw [unsent, hn, Option.elim_some]

/-- A row is replaced whose outbox is the same. -/
theorem unsent_set_same (hn : nodes[j]? = some n) (hsame : n'.worker.outbox = n.worker.outbox) :
    unsent i (nodes.set j n') = unsent i nodes := by
  by_cases hij : i = j
  · subst hij
    rw [unsent_set_self hn, unsent_eq hn, hsame]
  · exact unsent_set_ne hij

/-- The last row goes, whose outbox is empty. -/
theorem unsent_dropLast (hlast : nodes.getLast? = some n) (hsent : n.worker.outbox = []) :
    unsent i nodes.dropLast = unsent i nodes := by
  rw [List.getLast?_eq_getElem?] at hlast
  rcases lt_trichotomy i (nodes.length - 1) with hi | rfl | hi
  · rw [unsent, List.getElem?_dropLast, if_pos hi, unsent]
  · rw [unsent_eq hlast, hsent, unsent, List.getElem?_dropLast, if_neg (lt_irrefl _)]
    rfl
  · have hbeyond : nodes[i]? = none := List.getElem?_eq_none (by omega)
    rw [unsent, List.getElem?_dropLast, if_neg (not_lt.2 hi.le), unsent, hbeyond]

/-- A status is worth a report if its text is another one. -/
theorem changes_iff (prev new : Option StatusResp) :
    Console.changes prev new = true ↔ prev.map StatusResp.status ≠ new.map StatusResp.status := by
  cases prev with
  | none =>
      cases new with
      | none => exact iff_of_false Bool.false_ne_true fun h => h rfl
      | some new => exact iff_of_true rfl (Option.some_ne_none _).symm
  | some prev =>
      cases new with
      | none => exact iff_of_true rfl (Option.some_ne_none _)
      | some new =>
          rw [Console.changes, decide_eq_true_iff, Option.map_some, Option.map_some, Ne,
            Ne, Option.some.injEq]

theorem status?_report (node : ℕ) (status : Option StatusResp) :
    (Console.report node status).status? i =
      if node = i then some (status.map StatusResp.status) else none := by
  cases status with
  | none => rfl
  | some resp => rfl

/-- The latest of some values is kept if it differs from the one before. -/
theorem destutter_cons {α : Type*} [DecidableEq α] (a b : α) (l : List α) :
    (a :: b :: l).destutter (· ≠ ·) =
      if a ≠ b then a :: (b :: l).destutter (· ≠ ·) else (b :: l).destutter (· ≠ ·) := by
  rw [List.destutter_cons_cons, List.destutter_cons']
  split_ifs with hab
  · rfl
  · rw [not_not.1 hab]

/-- The status seen last is the first of those that are shown, the latest first. -/
theorem exists_shown (l : List (Option StatusResp)) :
    ∃ l', l.reverse.map (Option.map StatusResp.status) ++ [none] =
      l.getLast?.join.map StatusResp.status :: l' := by
  rcases List.eq_nil_or_concat' l with rfl | ⟨l, status, rfl⟩
  · exact ⟨[], rfl⟩
  · rw [List.reverse_concat, List.getLast?_concat]
    exact ⟨_, rfl⟩

/-- A row is replaced that shows the same status. -/
theorem status_set (hn : nodes[j]? = some n) {m : Node} (hm : (nodes.set j n')[i]? = some m)
    (hsame : n'.status = n.status) : ∃ m₀, nodes[i]? = some m₀ ∧ m.status = m₀.status := by
  by_cases hij : i = j
  · subst hij
    rw [List.getElem?_set_self (List.getElem?_eq_some_iff.1 hn).1] at hm
    obtain rfl := Option.some.inj hm
    exact ⟨n, hn, hsame⟩
  · rw [List.getElem?_set_ne (Ne.symm hij)] at hm
    exact ⟨m, hm, rfl⟩

end

/-- The reports about a node, and that a row that was not spawned yet was never seen. -/
structure Followed (i : ℕ) (h : List (Step Console ConsoleAction)) (c : Console) : Prop
    extends Reported i h c where
  fresh : c.phase = .running → c.nodes.length ≤ i → seen i h = []

section

variable {lib : Lib} {i : ℕ} {h : List (Step Console ConsoleAction)} {c c' : Console}
  {a : ConsoleAction}

namespace Followed

/-- A step in which nothing is learned or seen of the node, and nothing of it sent. -/
theorem same (hc : Followed i h c) (hlearned : learnedIn i ⟨c, a, c'⟩ = [])
    (hseen : seenIn i ⟨c, a, c'⟩ = []) (hmailbox : statuses i c'.mailbox = statuses i c.mailbox)
    (hunsent : unsent i c'.nodes = unsent i c.nodes)
    (hrows : ∀ n', c'.nodes[i]? = some n' → n'.status = (seen i h).getLast?.join)
    (hitems : reports i (lostIn ⟨c, a, c'⟩ ++ c'.events) = reports i c.events)
    (hfresh : c'.phase = .running → c.phase = .running ∧ c.nodes.length ≤ c'.nodes.length) :
    Followed i (⟨c, a, c'⟩ :: h) c' := by
  have hsame : seen i (⟨c, a, c'⟩ :: h) = seen i h := by rw [seen_cons, hseen, List.append_nil]
  refine ⟨⟨?inOrder, ?status, ?items⟩, ?fresh⟩
  case inOrder => rw [learned_cons, hlearned, hsame, hmailbox, hunsent, List.append_nil, hc.inOrder]
  case status => exact hsame ▸ hrows
  case items =>
    rw [hsame, lost_cons, List.append_assoc, reports_append, hitems, ← reports_append, hc.items]
  case fresh =>
    intro hrunning hi
    rw [hsame]
    exact hc.fresh (hfresh hrunning).1 ((hfresh hrunning).2.trans hi)

/-- Rows that are there show what they showed. -/
theorem rows (hc : Followed i h c) {nodes : List Node}
    (hkept : ∀ n', nodes[i]? = some n' → ∃ n, c.nodes[i]? = some n ∧ n'.status = n.status) :
    ∀ n', nodes[i]? = some n' → n'.status = (seen i h).getLast?.join := by
  intro n' hn'
  obtain ⟨n, hn, hsame⟩ := hkept n' hn'
  exact hsame.trans (hc.status n hn)

/-- What an event does to the reports that is no status. -/
theorem other (hc : Followed i h c) {env : ConsoleEnv} {event : ReplEvent} {rest : List ReplEvent}
    (hrunning : c.phase = .running) (hmailbox : c.mailbox = event :: rest)
    (hother : ∀ node status, event ≠ .nodeStatusReceived node status)
    (htouched : { c with mailbox := rest }.Touched c')
    (hframe : { c with mailbox := rest }.Frame c') :
    Followed i (⟨c, .handle env, c'⟩ :: h) c' := by
  have hnone : ReplEvent.status? i event = none := by
    cases event with
    | nodeStatusReceived node status => exact absurd rfl (hother node status)
    | input | notification | streamRead | statusRead => rfl
  have hseen : seenIn i ⟨c, .handle env, c'⟩ = [] := by
    rw [seenIn, hmailbox]
    exact List.filterMap_cons_none hnone
  have hrest : statuses i c'.mailbox = statuses i c.mailbox := by
    obtain ⟨notes, hnotes, htexts⟩ := hframe.mailbox
    rw [hnotes, hmailbox, statuses_append, statuses_of_notification htexts, List.append_nil]
    exact (List.filterMap_cons_none hnone).symm
  have hitems : reports i (lostIn ⟨c, .handle env, c'⟩ ++ c'.events) = reports i c.events := by
    obtain ⟨items, hevents, htexts⟩ := hframe.events
    rw [lostIn, List.nil_append, hevents, reports_append, reports_of_notification htexts,
      List.append_nil]
  cases htouched with
  | kept nodes phase =>
      refine hc.same rfl hseen hrest (by rw [nodes]) ?_ hitems fun h => ⟨hrunning, nodes ▸ le_rfl⟩
      exact nodes ▸ hc.status
  | left nodes phase =>
      refine hc.same rfl hseen hrest (by rw [nodes]) ?_ hitems fun h => ⟨hrunning, nodes ▸ le_rfl⟩
      exact nodes ▸ hc.status
  | told node fits nodes phase =>
      refine hc.same rfl hseen hrest ?_ ?_ hitems fun h => ⟨hrunning, ?_⟩
      · rw [nodes]
        exact unsent_set_same node rfl
      · rw [nodes]
        exact hc.rows fun n' hn' => status_set node hn' rfl
      · rw [nodes, List.length_set]
  | @spawned count type empty nodes phase =>
      have hempty : c.nodes = [] := empty
      refine hc.same rfl hseen hrest ?_ ?_ hitems fun h => ⟨hrunning, by simp [hempty]⟩
      · rw [nodes, hempty, unsent]
        cases hn : (Console.spawned count type)[i]? with
        | none => rfl
        | some n =>
            obtain ⟨_, rfl⟩ := getElem?_spawned hn
            rfl
      · intro n hn
        obtain ⟨_, rfl⟩ := getElem?_spawned (nodes ▸ hn)
        rw [hc.fresh hrunning (by simp [hempty])]
        rfl

/-- The console sees a status of the node. -/
theorem reported (hc : Followed i h c) {env : ConsoleEnv} {status : Option StatusResp} {n : Node}
    {rest : List ReplEvent} (hmailbox : c.mailbox = .nodeStatusReceived i status :: rest)
    (hn : c.nodes[i]? = some n) (hrest : c'.mailbox = rest)
    (hevents : c'.events =
      if Console.changes n.status status then c.events ++ [Console.report i status] else c.events)
    (hnodes : c'.nodes = c.nodes.set i { n with status }) :
    Followed i (⟨c, .handle env, c'⟩ :: h) c' := by
  have hlt : i < c.nodes.length := (List.getElem?_eq_some_iff.1 hn).1
  have hseen : seen i (⟨c, .handle env, c'⟩ :: h) = seen i h ++ [status] := by
    rw [seen_cons, seenIn, hmailbox]
    exact congrArg _ (List.filterMap_cons_some (if_pos rfl))
  have hbrings : statuses i c.mailbox = status :: statuses i rest := by
    rw [hmailbox]
    exact List.filterMap_cons_some (if_pos rfl)
  refine ⟨⟨?inOrder, ?status, ?items⟩, ?fresh⟩
  case inOrder =>
    have hunsent : unsent i c'.nodes = unsent i c.nodes := by
      rw [hnodes]
      exact unsent_set_same hn rfl
    rw [learned_cons, hseen, learnedIn, hc.inOrder, hbrings, hrest, hunsent]
    simp
  case status =>
    intro m hm
    rw [hnodes, List.getElem?_set_self hlt] at hm
    obtain rfl := Option.some.inj hm
    rw [hseen, List.getLast?_concat]
    rfl
  case items =>
    obtain ⟨l, hl⟩ := exists_shown (seen i h)
    have hitems := hc.items
    rw [hl, ← hc.status n hn] at hitems
    rw [hseen, List.reverse_concat, List.map_cons, List.cons_append, hl, ← hc.status n hn,
      destutter_cons, ← hitems, hevents, lost_cons, lostIn, List.append_nil]
    by_cases hchanges : Console.changes n.status status = true
    · have hreport := (status?_report i status).trans (if_pos rfl)
      have hnew : reports i [Console.report i status] = [status.map StatusResp.status] :=
        List.filterMap_cons_some hreport
      rw [if_pos hchanges, if_pos (Ne.symm ((changes_iff _ _).1 hchanges)), ← List.append_assoc,
        reports_append, hnew, List.reverse_concat, List.cons_append]
    · have hsame := not_not.1 fun hne => hchanges ((changes_iff _ _).2 hne)
      rw [if_neg hchanges, if_neg (not_not.2 hsame.symm)]
  case fresh =>
    intro _ hi
    rw [hnodes, List.length_set] at hi
    exact absurd hi (not_le.2 hlt)

/-- A worker was done with what it had to send, and has events again. -/
theorem produced {j : ℕ} (hc : Followed i h c) {n n' : Node} (hn : c.nodes[j]? = some n)
    (hsent : n.worker.outbox = []) (hnodes : c'.nodes = c.nodes.set j n')
    (hstatus : n'.status = n.status)
    (hlearned : learnedIn i ⟨c, a, c'⟩ = if j = i then unsent i c'.nodes else [])
    (hseen : seenIn i ⟨c, a, c'⟩ = []) (hmailbox : c'.mailbox = c.mailbox)
    (hlost : lostIn ⟨c, a, c'⟩ = []) (hevents : c'.events = c.events)
    (hphase : c'.phase = c.phase) :
    Followed i (⟨c, a, c'⟩ :: h) c' := by
  have hsame : seen i (⟨c, a, c'⟩ :: h) = seen i h := by rw [seen_cons, hseen, List.append_nil]
  have hrows : ∀ m, c'.nodes[i]? = some m → m.status = (seen i h).getLast?.join := by
    rw [hnodes]
    exact hc.rows fun m hm => status_set hn hm hstatus
  by_cases hij : j = i
  · subst hij
    refine ⟨⟨?inOrder, ?status, ?items⟩, ?fresh⟩
    case inOrder =>
      have hnone : unsent j c.nodes = [] := by rw [unsent_eq hn, hsent]; rfl
      rw [learned_cons, hlearned, if_pos rfl, hc.inOrder, hnone, hsame, hmailbox, List.append_nil]
    case status => exact hsame ▸ hrows
    case items => rw [hsame, lost_cons, hlost, List.append_nil, hevents, hc.items]
    case fresh =>
      intro hrunning hj
      rw [hnodes, List.length_set] at hj
      rw [hsame]
      exact hc.fresh (hphase ▸ hrunning) hj
  · refine hc.same (hlearned.trans (if_neg hij)) hseen (by rw [hmailbox]) ?_ hrows
      (by rw [hlost, hevents, List.nil_append]) fun hrunning => ⟨hphase ▸ hrunning, ?_⟩
    · rw [hnodes, unsent_set_ne (Ne.symm hij)]
    · rw [hnodes, List.length_set]

/-- An event leaves the outbox of a worker. -/
theorem sent {j : ℕ} (hc : Followed i h c) {n n' : Node} {event : ReplEvent} {rest : List ReplEvent}
    (hn : c.nodes[j]? = some n) (houtbox : n.worker.outbox = event :: rest) (hof : event.Of j)
    (hnodes : c'.nodes = c.nodes.set j n') (hrest : n'.worker.outbox = rest)
    (hstatus : n'.status = n.status) (hmailbox : c'.mailbox = c.mailbox ++ [event])
    (hevents : c'.events = c.events) (hphase : c'.phase = c.phase) :
    Followed i (⟨c, .send j, c'⟩ :: h) c' := by
  have hrows : ∀ m, c'.nodes[i]? = some m → m.status = (seen i h).getLast?.join := by
    rw [hnodes]
    exact hc.rows fun m hm => status_set hn hm hstatus
  have hseen : seen i (⟨c, .send j, c'⟩ :: h) = seen i h := by
    rw [seen_cons, seenIn, List.append_nil]
  by_cases hij : i = j
  · subst hij
    refine ⟨⟨?inOrder, ?status, ?items⟩, ?fresh⟩
    case inOrder =>
      have hbefore : unsent i c.nodes = statuses i [event] ++ statuses i rest := by
        rw [unsent_eq hn, houtbox, ← statuses_append, List.singleton_append]
      have hafter : unsent i c'.nodes = statuses i rest := by
        rw [hnodes, unsent_set_self hn, hrest]
      rw [learned_cons, learnedIn, List.append_nil, hc.inOrder, hbefore, hseen, hmailbox,
        statuses_append, hafter, List.append_assoc, List.append_assoc, List.append_assoc]
    case status => exact hseen ▸ hrows
    case items => rw [hseen, lost_cons, lostIn, List.append_nil, hevents, hc.items]
    case fresh =>
      intro hrunning hj
      rw [hnodes, List.length_set] at hj
      rw [hseen]
      exact hc.fresh (hphase ▸ hrunning) hj
  · refine hc.same rfl rfl ?_ ?_ hrows (by rw [lostIn, hevents, List.nil_append])
      fun hrunning => ⟨hphase ▸ hrunning, ?_⟩
    · rw [hmailbox, statuses_append, statuses_of_ne (List.forall_mem_singleton.2 hof) hij,
        List.append_nil]
    · rw [hnodes, unsent_set_ne hij]
    · rw [hnodes, List.length_set]

/-- **One step.** -/
theorem next (hc : Followed i h c) (hsound : c.Sound) (hnext : c.next lib a c') :
    Followed i (⟨c, a, c'⟩ :: h) c' := by
  cases Console.next_moved hnext with
  | pressed =>
      refine hc.same rfl rfl ?_ rfl hc.status rfl fun hrunning => ⟨hrunning, le_rfl⟩
      rw [statuses_append]
      exact List.append_nil _
  | @reported env node status rest n running mailbox found =>
      by_cases hnode : node = i
      · subst hnode
        exact hc.reported mailbox found rfl rfl rfl
      · have hnone : ReplEvent.status? i (.nodeStatusReceived node status) = none := if_neg hnode
        refine hc.same rfl ?_ ?_ (unsent_set_same found rfl) ?_ ?_ fun _ => ⟨running, ?_⟩
        · rw [seenIn, mailbox]
          exact List.filterMap_cons_none hnone
        · rw [mailbox]
          exact (List.filterMap_cons_none hnone).symm
        · intro n' hn'
          rw [List.getElem?_set_ne hnode] at hn'
          exact hc.status n' hn'
        · dsimp only
          split_ifs
          · have hnone : reports i [Console.report node status] = [] :=
              List.filterMap_cons_none ((status?_report node status).trans (if_neg hnode))
            rw [lostIn, List.nil_append, reports_append, hnone, List.append_nil]
          · rfl
        · rw [List.length_set]
  | handled running mailbox other touched frame =>
      exact hc.other running mailbox other touched frame
  | worked node live sent inbox => exact hc.produced node sent rfl rfl rfl rfl rfl rfl rfl rfl
  | polled node live sent inbox => exact hc.produced node sent rfl rfl rfl rfl rfl rfl rfl rfl
  | @sent j n event rest node outbox =>
      have hof := List.forall_mem_cons.1 (outbox ▸ (hsound.rows j n node).outbox)
      exact hc.sent node outbox hof.1 rfl rfl rfl rfl rfl rfl
  | ponged mem texts =>
      refine hc.same rfl rfl ?_ rfl hc.status rfl fun hrunning => ⟨hrunning, le_rfl⟩
      rw [statuses_append, statuses_of_notification texts, List.append_nil]
  | @drawn viewHeight count running =>
      refine hc.same rfl rfl rfl rfl hc.status ?_ fun hrunning => ⟨hrunning, le_rfl⟩
      rw [lostIn, List.length_drop]
      rcases le_total count c.events.length with hle | hle
      · rw [Nat.sub_sub_self hle, List.take_append_drop]
      · rw [Nat.sub_eq_zero_of_le hle, List.drop_eq_nil_of_le hle, Nat.sub_zero, List.take_length,
          List.append_nil]
  | asked closing last =>
      have hlast := List.getLast?_eq_getElem? ▸ last
      refine hc.same rfl rfl rfl (unsent_set_same hlast rfl) ?_ rfl ConsolePhase.noConfusion
      exact hc.rows fun n' hn' => status_set hlast hn' rfl
  | closed => exact hc.same rfl rfl rfl rfl hc.status rfl ConsolePhase.noConfusion
  | reaped closing last done sent =>
      refine hc.same rfl rfl rfl (unsent_dropLast last sent) ?_ rfl ConsolePhase.noConfusion
      intro n' hn'
      rw [List.getElem?_dropLast] at hn'
      split_ifs at hn'
      exact hc.status n' hn'

end Followed

/-- **The reports of a node are in order.**  In every run, whatever becomes of the RPCs and however
the workers are scheduled, nothing that a worker learned of its node is lost, doubled or overtaken
on the way to its row, the row shows what was seen last, and the items about the node are the
changes. -/
theorem reports_in_order {content : Bytes} (hrun : ConsoleRun lib content h c) (i : ℕ) :
    Reported i h c := by
  suffices hfollowed : Followed i h c from hfollowed.toReported
  obtain ⟨calls, init, hnew, hrun⟩ := hrun
  induction hrun with
  | nil =>
      obtain ⟨state, _, heq⟩ := Option.bind_eq_some_iff.1 hnew
      obtain rfl := Option.some.inj heq
      refine ⟨⟨rfl, fun n hn => ?_, rfl⟩, fun _ _ => rfl⟩
      cases hn
  | cons hrun hnext ih => exact ih.next (ConsoleRun.sound ⟨calls, init, hnew, hrun⟩) hnext

end

/-- Three nodes are spawned.  The first connects, and is asked twice more.  The second time it does
not respond, which was not sent yet.  The view has no room for the report. -/
def asked : List ConsoleAction :=
  let env : ConsoleEnv := { edited := "", elapsed := 0, names := fun _ => "name" }
  let remote := Remote.sample []
  typed "spawn --count 3" ++ [.work 0 remote, .send 0, .handle env, .poll 0 remote, .send 0,
    .work 1 remote, .send 1, .handle env, .poll 0 { remote with status := none }, .draw 2]

/-- The drawing dropped the only item, and one of three statuses waits to be seen. -/
theorem reports_in_order_asked : ∃ h c, ConsoleRun .sample [] h c ∧
    reports 0 (lost h) = [some "follower"] ∧ c.events = [] ∧ (learned 0 h).length = 3 ∧
      (seen 0 h).length = 2 ∧ Reported 0 h c := by
  obtain ⟨h, c, hrun, hreports, hempty, hlearned, hseen⟩ :=
    ConsoleRun.exists_of_replay .sample [] asked
      (fun h c => reports 0 (lost h) = [some "follower"] ∧ c.events = [] ∧
        (learned 0 h).length = 3 ∧ (seen 0 h).length = 2) (by decide +kernel)
  exact ⟨h, c, hrun, hreports, hempty, hlearned, hseen, reports_in_order hrun 0⟩

end Repl
end RaftPlayground
