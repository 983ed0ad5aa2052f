/-
# The console and its workers

`State` of `raft-repl/src/state.rs` with its nodes and the list of events, `Node` of `node.rs`, and
the loop of `main.rs`.

The console takes one event after the other from its mailbox: the keys, and what the workers and the
pings of foreign hosts send.  It puts commands into the inboxes of the workers, and knows of a node
what its worker last told it.  To leave, it sends every worker a cleanup, one after the other, and
waits for each.

What `clap`, `serde_json` and the names of `names` make of their arguments is in `Lib` and
`ConsoleEnv`.  Of the drawing only this is left, that it drops the events that no longer fit.
-/

import RaftPlayground.Repl.Browse
import RaftPlayground.Repl.Handler
import RaftPlayground.Repl.Navigate

namespace RaftPlayground
namespace Repl

open Protocol
open Server (Bytes RecordedEvent)

/-- `Command`, with the arguments of each. -/
inductive Command
  | exit
  | quit
  | spawn (count : ℕ) (type : ProcType)
  | stop (node : ℕ)
  | start (node : ℕ) (external : Bool) (port : Option ℕ) (type : ProcType)
  | restart (node : ℕ) (type : ProcType)
  | appendToStream (node : ℕ) (stream : Option String)
  | readStream (node : ℕ) (stream : String)
  | pingNode (node : ℕ)
  | pingExternal (host : String) (port : ℕ)
  | status (node : ℕ)
deriving DecidableEq, Repr

/-- What the packages make of their arguments: the command in the pieces of a line, or an error; the
bytes of an object with one field; the text of a payload, if it is JSON; the text of a status; and
the width of a text. -/
structure Lib where
  tryParseFrom : List String → Except TextSize Command
  toVec : String → String → Bytes
  toStringPretty : Bytes → Option TextSize
  debug : Option StatusResp → TextSize
  width : String → ℕ

/-- The size of a message, which is one line. -/
def Lib.text (lib : Lib) (s : String) : TextSize := { width := lib.width s, height := 1 }

/-- `str::split`, at the blanks. -/
def split (line : String) : List String := (line.toList.splitOn ' ').map String.ofList

/-- What the console reads from outside for one event: the line `TextArea::input` leaves, the
milliseconds since the start, and the names the generator gives next. -/
structure ConsoleEnv where
  edited : String
  elapsed : ℕ
  names : ℕ → String

/-- `Color`. -/
inductive Color
  | default
  | red
  | yellow
  | green
deriving DecidableEq, Repr

/-- An item of the list of events: a notification, or that a node now has a status or is offline. -/
inductive Item
  | notification (text : String) (color : Color)
  | node (index : ℕ) (status : Option String) (color : Color)
deriving DecidableEq, Repr

/-- `Node`, with its worker. -/
structure Node where
  port : ℕ
  seeds : List ℕ
  status : Option StatusResp
  worker : Worker
deriving DecidableEq, Repr

namespace Node

/-- `Node::new`. -/
def new (idx port : ℕ) (seeds : List ℕ) (type : ProcType) : Node :=
  { port, seeds, status := none, worker := Worker.new idx (.start port seeds type) }

variable (n : Node)

/-- A command is put into the inbox of the worker. -/
def tell (cmd : NodeCmd) : Node := { n with worker := n.worker.tell cmd }

/-- `Node::stop`. -/
def stop : Node := n.tell .stop

/-- `Node::start`. -/
def start (type : ProcType) : Node := n.tell (.start n.port n.seeds type)

/-- `Node::ping`. -/
def ping : Node := n.tell .ping

/-- `Node::read_status`. -/
def readStatus : Node := n.tell .status

/-- `Node::append_to_stream`. -/
def appendToStream (lib : Lib) (env : ConsoleEnv) (stream : Option String) : Node :=
  match stream with
  | some name => n.tell (.appendStream name [lib.toVec (env.names 0) (env.names 1)])
  | none => n.tell (.appendStream (env.names 0) [lib.toVec (env.names 1) (env.names 2)])

/-- `Node::read_stream`. -/
def readStream (stream : String) : Node := n.tell (.readStream stream)

end Node

/-- A command fits the node: a start is one of its ports, and it is no cleanup. -/
def Node.Fits (n : Node) : NodeCmd → Prop
  | .start port seeds _ => port = n.port ∧ seeds = n.seeds
  | .cleanup => False
  | .appendStream .. | .readStream _ | .ping | .stop | .status => True

namespace State

variable {s s' : State} {env : Env} {go : Bool}

/-- The line in the prompt is to be stored, and the file refuses it. -/
def Refused (s : State) : Prop :=
  s.prompt.isEmpty = false ∧ s.history.entries.getLast? ≠ some s.prompt ∧
    s.history.persistence.file.Refuses

instance (s : State) : Decidable s.Refused := inferInstanceAs (Decidable (_ ∧ _ ∧ _))

/-- A line that is refused is the end of the program. -/
theorem onCommand_of_refused (h : s.Refused) : s.onCommand env = none := by
  obtain ⟨hprompt, hnew, hrefuses⟩ := h
  have hpersist : Persistence.persist s.history.persistence (s.history.entries ++ [s.prompt]) =
      ((s.history.persistence.persist (s.history.entries ++ [s.prompt])).1, false) :=
    Prod.ext rfl ((persist_snd_iff _).2 hrefuses)
  rw [onCommand, if_neg (by simp [hprompt])]
  dsimp only
  rw [History.push_of_persist hnew hpersist]
  rfl

/-- Any other line in the prompt is taken, and the history is at its end then. -/
theorem exists_onCommand (env : Env) (hstored : ¬ s.Refused) :
    ∃ s' go, s.onCommand env = some (s', go) ∧ (s.history.InRange → s'.history.InRange) := by
  rw [onCommand]
  split_ifs with hempty
  · exact ⟨_, _, rfl, id⟩
  · have hpush : ∃ history, s.history.push s.prompt = (history, true) ∧ history.InRange := by
      by_cases hlast : s.history.entries.getLast? = some s.prompt
      · exact ⟨_, History.push_of_same hlast, Nat.le_refl _⟩
      · have hrefuses : ¬ s.history.persistence.file.Refuses := fun hrefuses =>
          hstored ⟨Bool.eq_false_of_not_eq_true hempty, hlast, hrefuses⟩
        have hpersist :
            Persistence.persist s.history.persistence (s.history.entries ++ [s.prompt]) =
              ((s.history.persistence.persist (s.history.entries ++ [s.prompt])).1, true) :=
          Prod.ext rfl (Bool.eq_true_of_not_eq_false (mt (persist_snd_iff _).1 hrefuses))
        exact ⟨_, History.push_of_persist hlast hpersist, Nat.le_refl _⟩
    obtain ⟨history, hpush, hin⟩ := hpush
    dsimp only
    rw [hpush]
    cases env.outcome with
    | invalid | exit | failed | done => exact ⟨_, _, rfl, fun _ => hin⟩

/-- **A key does not panic** on a history in range, unless it enters a line that is refused, and
does not lead out of it. -/
theorem exists_onInput (env : Env) (key : Key) (hin : s.history.InRange)
    (hstored : s.popup.shown = false → key = .enter → ¬ s.Refused) :
    ∃ s' go, s.onInput env key = some (s', go) ∧ s'.history.InRange := by
  by_cases hshown : s.popup.shown = true
  · exact ⟨_, _, if_pos hshown, hin⟩
  · have hhidden : s.popup.shown = false := Bool.eq_false_of_not_eq_true hshown
    cases key with
    | up =>
        refine ⟨_, _, onInput_arrow hhidden hin env .up, ?_⟩
        show (if _ then s.history.offset else s.history.offset - 1) ≤ s.history.entries.length
        split_ifs
        · exact hin
        · exact (Nat.sub_le _ _).trans hin
    | down => exact ⟨_, _, onInput_arrow hhidden hin env .down, min_le_right _ _⟩
    | enter =>
        obtain ⟨s', go, hcommand, hrange⟩ := exists_onCommand env (hstored hhidden rfl)
        exact ⟨s', go, (if_neg hshown).trans hcommand, hrange hin⟩
    | left | right | pageUp | pageDown | char | other => exact ⟨_, _, if_neg hshown, hin⟩

theorem inRange_onCommand (h : s.onCommand env = some (s', go)) (hin : s.history.InRange) :
    s'.history.InRange := by
  have hstored : ¬ s.Refused := fun hrefused => nomatch h.symm.trans (onCommand_of_refused hrefused)
  obtain ⟨s₁, go₁, hcommand, hrange⟩ := exists_onCommand env hstored
  obtain ⟨rfl, _⟩ := Prod.mk.inj (Option.some.inj (h.symm.trans hcommand))
  exact hrange hin

theorem inRange_onInput {key : Key} (h : s.onInput env key = some (s', go))
    (hin : s.history.InRange) : s'.history.InRange := by
  have hstored : s.popup.shown = false → key = .enter → ¬ s.Refused := by
    rintro hhidden rfl hrefused
    have hcommand : s.onInput env .enter = s.onCommand env := if_neg (by simp [hhidden])
    exact nomatch h.symm.trans (hcommand.trans (onCommand_of_refused hrefused))
  obtain ⟨s₁, go₁, hinput, hrange⟩ := exists_onInput env key hin hstored
  obtain ⟨rfl, _⟩ := Prod.mk.inj (Option.some.inj (h.symm.trans hinput))
  exact hrange

end State

/-- Whether the console runs, waits for a worker it told to clean up, or is over. -/
inductive ConsolePhase
  | running
  | closing (told : Bool)
  | finished
deriving DecidableEq, Repr

/-- The console with its workers, what they started, and the pings that are under way. -/
structure Console where
  state : State
  nodes : List Node
  events : List Item
  mailbox : List ReplEvent
  pings : List (String × ℕ)
  procs : Procs
  phase : ConsolePhase

/-- What may happen next. -/
inductive ConsoleAction
  | press (key : Key)
  | handle (env : ConsoleEnv)
  | work (i : ℕ) (remote : Remote)
  | poll (i : ℕ) (remote : Remote)
  | send (i : ℕ)
  | pong (host : String) (port : ℕ) (result : Option Bool)
  | draw (viewHeight : ℕ)
  | cleanup
  | reap

namespace Console

variable (lib : Lib) (env : ConsoleEnv) (c : Console)

/-- `State::new`, with the bytes of the history file. -/
def new (content : Bytes) (calls : List Io) : Option Console := do
  let state ← State.new content calls
  some
    { state, nodes := [], events := [], mailbox := [], pings := []
      procs := { managed := [], children := [] }
      phase := .running }

/-- The ports of a cluster of so many nodes. -/
def allNodes (count : ℕ) : List ℕ := (List.range count).map fun idx => (2113 + idx) % 2 ^ 16

/-- The nodes of a cluster of so many nodes. -/
def spawned (count : ℕ) (type : ProcType) : List Node :=
  (allNodes count).mapIdx fun idx port =>
    Node.new idx port ((allNodes count).filter (· ≠ port)) type

/-- `State::spawn_cluster`. -/
def spawnCluster (count : ℕ) (type : ProcType) : Console × Option String :=
  if ¬ c.nodes.isEmpty then
    (c, some "You already have an active cluster configuration. Shut it down first!")
  else ({ c with nodes := spawned count type }, none)

/-- What is done to a node, if it exists. -/
def atNode (node : ℕ) (f : Node → Node) : Console × Option String :=
  match c.nodes[node]? with
  | some n => ({ c with nodes := c.nodes.set node (f n) }, none)
  | none => (c, some ("Node " ++ toString node ++ " doesn't exist"))

/-- `State::stop_node`. -/
def stopNode (node : ℕ) : Console × Option String := c.atNode node Node.stop

/-- `State::start_node`. -/
def startNode (node : ℕ) (type : ProcType) : Console × Option String :=
  c.atNode node fun n => n.start type

/-- `State::restart_node`. -/
def restartNode (node : ℕ) (type : ProcType) : Console × Option String :=
  c.atNode node fun n => n.start type

/-- `State::append_to_stream`. -/
def appendToStream (node : ℕ) (stream : Option String) : Console × Option String :=
  c.atNode node fun n => n.appendToStream lib env stream

/-- `State::read_stream`. -/
def readStream (node : ℕ) (stream : String) : Console × Option String :=
  c.atNode node fun n => n.readStream stream

/-- `State::status_node`. -/
def statusNode (node : ℕ) : Console × Option String := c.atNode node Node.readStatus

/-- `State::ping_node`, of a node. -/
def pingNode (node : ℕ) : Console :=
  match c.nodes[node]? with
  | some n => { c with nodes := c.nodes.set node n.ping }
  | none =>
    { c with mailbox := c.mailbox ++ [.warn ("There is no node " ++ toString node)] }

/-- `State::ping_node`, of a foreign host. -/
def pingExternal (host : String) (port : ℕ) : Console :=
  { c with pings := c.pings ++ [(host, port)] }

/-- What becomes of a command that was read. -/
def command : Command → Console × Outcome
  | .exit | .quit => ({ c with phase := .closing false }, .exit)
  | .spawn count type => finish (c.spawnCluster count type)
  | .stop node => finish (c.stopNode node)
  | .start node _ _ type => finish (c.startNode node type)
  | .restart node type => finish (c.restartNode node type)
  | .appendToStream node stream => finish (c.appendToStream lib env node stream)
  | .readStream node stream => finish (c.readStream node stream)
  | .pingNode node => (c.pingNode node, .done)
  | .pingExternal host port => (c.pingExternal host port, .done)
  | .status node => finish (c.statusNode node)
where
  finish : Console × Option String → Console × Outcome
  | (c, none) => (c, .done)
  | (c, some message) => (c, .failed (lib.text message))

/-- What becomes of the line in the prompt; nothing, if it is empty. -/
def perform : Console × Outcome :=
  if c.state.prompt.isEmpty then (c, .done)
  else
    match lib.tryParseFrom (" " :: split c.state.prompt) with
    | .error error => (c, .invalid error)
    | .ok cmd => c.command lib env cmd

/-- `State::on_command`; `none` is a panic. -/
def onCommand : Option (Console × Bool) := do
  let (state, go) ← c.state.onCommand { edited := env.edited, outcome := (c.perform lib env).2 }
  some ({ (c.perform lib env).1 with state }, go)

/-- `State::on_input`; `none` is a panic. -/
def onInput (key : Key) : Option (Console × Bool) :=
  if ¬ c.state.popup.shown ∧ key = .enter then c.onCommand lib env
  else do
    let (state, go) ← c.state.onInput { edited := env.edited, outcome := .done } key
    some ({ c with state }, go)

/-- `State::push_event`. -/
def pushEvent (color : Color) (msg : String) : Console :=
  let secs := toString (env.elapsed / 1000)
  let millis := toString (env.elapsed % 1000)
  { c with
    events := c.events ++ [.notification ("t=" ++ secs ++ "." ++ millis ++ "s " ++ msg) color] }

/-- `State::on_notification`. -/
def onNotification (msg : String) (type : NotificationType) : Console :=
  match type with
  | .positive => c.pushEvent env .default msg
  | .negative => c.pushEvent env .red msg
  | .warning => c.pushEvent env .yellow msg

/-- Whether a status is worth a report. -/
def changes (prev new : Option StatusResp) : Bool :=
  match prev, new with
  | some prev, some new => prev.status ≠ new.status
  | some _, none => true
  | none, new => new.isSome

/-- The item that reports the status of a node. -/
def report (node : ℕ) (status : Option StatusResp) : Item :=
  match status with
  | none => .node node none .red
  | some resp =>
    .node node (some resp.status) (if resp.status = "candidate" then .yellow else .green)

/-- `State::on_node_connectivity_changed`; `none` is an index out of bounds. -/
def onNodeConnectivityChanged (node : ℕ) (status : Option StatusResp) : Option Console := do
  let n ← c.nodes[node]?
  let events := if changes n.status status then c.events ++ [report node status] else c.events
  some { c with events, nodes := c.nodes.set node { n with status } }

/-- The size of a record: three lines, a blank one, its payload and two blank ones; `none` where the
payload is no JSON. -/
def recordSize (event : RecordedEvent) : Option TextSize := do
  let payload ← lib.toStringPretty event.payload
  some
    { width :=
        max (max (lib.width ("Global:" ++ toString event.global))
          (lib.width ("Revision:" ++ toString event.revision)))
          (max (lib.width ("Stream Id:" ++ event.streamId)) payload.width)
      height := payload.height + 6 }

/-- `serialize_records`; `none` is the failed `unwrap` of a payload that is no JSON. -/
def serializeRecords : List RecordedEvent → Option TextSize
  | [] => some { width := 0, height := 0 }
  | event :: events => do
    let size ← recordSize lib event
    let rest ← serializeRecords events
    some { width := max size.width rest.width, height := size.height + rest.height }

/-- `State::on_node_stream_read`. -/
def onNodeStreamRead (node : ℕ) (stream : String) (events : List RecordedEvent) :
    Option Console := do
  let text ← serializeRecords lib events
  let title := "Reading stream '" ++ stream ++ "' from node " ++ toString node
  some { c with state := c.state.showPopup title text }

/-- `State::on_node_status`. -/
def onNodeStatus (node : ℕ) (status : Option StatusResp) : Console :=
  { c with
    state := c.state.showPopup ("Node " ++ toString node ++ " status") (lib.debug status) }

/-- What the loop of `main.rs` makes of an event, and whether it goes on; `none` is a panic. -/
def onEvent : ReplEvent → Option (Console × Bool)
  | .input key => c.onInput lib env key
  | .notification msg type => some (c.onNotification env msg type, true)
  | .nodeStatusReceived node status => (c.onNodeConnectivityChanged node status).map (·, true)
  | .streamRead node stream events => (c.onNodeStreamRead lib node stream events).map (·, true)
  | .statusRead node status => some (c.onNodeStatus lib node status, true)

/-- `State::draw`, for the list of events in a view of this height: the earliest items go until the
others fit between the borders. -/
def draw (viewHeight : ℕ) : Console :=
  if viewHeight < 2 then c
  else { c with events := c.events.drop (c.events.length - (viewHeight - 2)) }

/-- The worker of the last node is told to clean up; without a node, the console is over. -/
def cleanup : Console :=
  match c.nodes.getLast? with
  | none => { c with phase := .finished }
  | some n =>
    { c with
      nodes := c.nodes.set (c.nodes.length - 1) (n.tell .cleanup)
      phase := .closing true }

/-- One step; `none` where the action is not possible, and where the console panics. -/
def step : ConsoleAction → Option Console
  | .press key => some { c with mailbox := c.mailbox ++ [.input key] }
  | .handle env =>
    match c.phase, c.mailbox with
    | .running, event :: rest => ({ c with mailbox := rest }.onEvent lib env event).map Prod.fst
    | _, _ => none
  | .work i remote => do
    let n ← c.nodes[i]?
    let (worker, procs) ← n.worker.work remote c.procs
    some { c with procs, nodes := c.nodes.set i { n with worker } }
  | .poll i remote => do
    let n ← c.nodes[i]?
    let worker ← n.worker.poll remote
    some { c with nodes := c.nodes.set i { n with worker } }
  | .send i => do
    let n ← c.nodes[i]?
    let (event, worker) ← n.worker.send
    some { c with nodes := c.nodes.set i { n with worker }, mailbox := c.mailbox ++ [event] }
  | .pong host port result =>
    if (host, port) ∈ c.pings then
      let address := host ++ ":" ++ toString port
      let answer : List ReplEvent :=
        match result with
        | some true => [.msg ("Ping " ++ address ++ " OK")]
        | some false => [.error ("Ping " ++ address ++ " FAILED")]
        -- the address is none, which ends the task
        | none => []
      some { c with pings := c.pings.erase (host, port), mailbox := c.mailbox ++ answer }
    else none
  | .draw viewHeight => if c.phase = .running then some (c.draw viewHeight) else none
  | .cleanup => if c.phase = .closing false then some c.cleanup else none
  | .reap =>
    match c.phase, c.nodes.getLast? with
    | .closing true, some n =>
      if n.worker.done ∧ n.worker.outbox = [] then
        some { c with nodes := c.nodes.dropLast, phase := .closing false }
      else none
    | _, _ => none

/-- The action `a` takes the console `c` to `c'`. -/
def next (c : Console) (a : ConsoleAction) (c' : Console) : Prop := c.step lib a = some c'

/-! ### The ways a step goes -/

/-- What an event that is no status does to the nodes and to the phase. -/
inductive Touched (c : Console) (c' : Console) : Prop
  | kept (nodes : c'.nodes = c.nodes) (phase : c'.phase = c.phase)
  | told {i n cmd} (node : c.nodes[i]? = some n) (fits : n.Fits cmd)
      (nodes : c'.nodes = c.nodes.set i (n.tell cmd)) (phase : c'.phase = c.phase)
  | spawned {count type} (empty : c.nodes = []) (nodes : c'.nodes = spawned count type)
      (phase : c'.phase = c.phase)
  | left (nodes : c'.nodes = c.nodes) (phase : c'.phase = .closing false)

/-- What no such event does: it leaves the servers alone, adds nothing to the mailbox and to the
list of events but notifications, and does not lead out of the history. -/
structure Frame (c c' : Console) : Prop where
  procs : c'.procs = c.procs
  mailbox : ∃ notes, c'.mailbox = c.mailbox ++ notes ∧
    ∀ event ∈ notes, ∃ msg type, event = ReplEvent.notification msg type
  events : ∃ items, c'.events = c.events ++ items ∧
    ∀ item ∈ items, ∃ text color, item = Item.notification text color
  range : c.state.history.InRange → c'.state.history.InRange

/-- The ways a step goes. -/
inductive Moved (c : Console) : ConsoleAction → Console → Prop
  | pressed {key} : Moved c (.press key) { c with mailbox := c.mailbox ++ [.input key] }
  | reported {env node status rest n} (running : c.phase = .running)
      (mailbox : c.mailbox = .nodeStatusReceived node status :: rest)
      (found : c.nodes[node]? = some n) :
      Moved c (.handle env)
        { c with
          mailbox := rest
          events := if changes n.status status then c.events ++ [report node status] else c.events
          nodes := c.nodes.set node { n with status } }
  | handled {env event rest c'} (running : c.phase = .running)
      (mailbox : c.mailbox = event :: rest)
      (other : ∀ node status, event ≠ .nodeStatusReceived node status)
      (touched : { c with mailbox := rest }.Touched c')
      (frame : { c with mailbox := rest }.Frame c') : Moved c (.handle env) c'
  | worked {i remote n cmd rest} (node : c.nodes[i]? = some n) (live : n.worker.done = false)
      (sent : n.worker.outbox = []) (inbox : n.worker.inbox = cmd :: rest) :
      Moved c (.work i remote)
        { c with
          procs := (n.worker.handler.run remote c.procs cmd).2.1
          nodes := c.nodes.set i
            { n with
              worker :=
                { handler := (n.worker.handler.run remote c.procs cmd).1
                  inbox := rest
                  outbox := (n.worker.handler.run remote c.procs cmd).2.2
                  done := cmd = .cleanup } } }
  | polled {i remote n} (node : c.nodes[i]? = some n) (live : n.worker.done = false)
      (sent : n.worker.outbox = []) (inbox : n.worker.inbox = []) :
      Moved c (.poll i remote)
        { c with
          nodes := c.nodes.set i
            { n with
              worker := { n.worker with outbox := n.worker.handler.status remote } } }
  | sent {i n event rest} (node : c.nodes[i]? = some n) (outbox : n.worker.outbox = event :: rest) :
      Moved c (.send i)
        { c with
          nodes := c.nodes.set i { n with worker := { n.worker with outbox := rest } }
          mailbox := c.mailbox ++ [event] }
  | ponged {host port result notes} (mem : (host, port) ∈ c.pings)
      (texts : ∀ event ∈ notes, ∃ msg type, event = ReplEvent.notification msg type) :
      Moved c (.pong host port result)
        { c with pings := c.pings.erase (host, port), mailbox := c.mailbox ++ notes }
  | drawn {viewHeight count} (running : c.phase = .running) :
      Moved c (.draw viewHeight) { c with events := c.events.drop count }
  | asked {n} (closing : c.phase = .closing false) (last : c.nodes.getLast? = some n) :
      Moved c .cleanup
        { c with
          nodes := c.nodes.set (c.nodes.length - 1) (n.tell .cleanup)
          phase := .closing true }
  | closed (closing : c.phase = .closing false) (empty : c.nodes = []) :
      Moved c .cleanup { c with phase := .finished }
  | reaped {n} (closing : c.phase = .closing true) (last : c.nodes.getLast? = some n)
      (done : n.worker.done = true) (sent : n.worker.outbox = []) :
      Moved c .reap { c with nodes := c.nodes.dropLast, phase := .closing false }

section

variable {lib : Lib} {env : ConsoleEnv} {c c' : Console}

theorem Frame.refl (c : Console) : c.Frame c where
  procs := rfl
  mailbox := ⟨[], (List.append_nil _).symm, fun _ h => absurd h List.not_mem_nil⟩
  events := ⟨[], (List.append_nil _).symm, fun _ h => absurd h List.not_mem_nil⟩
  range := id

/-- What is shown in the popup and in the prompt does not matter. -/
theorem Touched.state {state : State} (h : c.Touched c') : c.Touched { c' with state } := by
  cases h with
  | kept nodes phase => exact .kept nodes phase
  | told node fits nodes phase => exact .told node fits nodes phase
  | spawned empty nodes phase => exact .spawned empty nodes phase
  | left nodes phase => exact .left nodes phase

theorem Frame.state {state : State} (h : c.Frame c')
    (hrange : c.state.history.InRange → state.history.InRange) : c.Frame { c' with state } :=
  ⟨h.procs, h.mailbox, h.events, hrange⟩

/-- A command to a node is put into the inbox of its worker, or fails. -/
theorem atNode_spec (node : ℕ) {f : Node → Node} (hf : ∀ n, ∃ cmd, n.Fits cmd ∧ f n = n.tell cmd) :
    c.Touched (c.atNode node f).1 ∧ c.Frame (c.atNode node f).1 := by
  rw [atNode]
  cases hn : c.nodes[node]? with
  | none => exact ⟨.kept rfl rfl, .refl c⟩
  | some n =>
      obtain ⟨cmd, hfits, heq⟩ := hf n
      exact ⟨.told hn hfits (congrArg (c.nodes.set node) heq) rfl, rfl, (Frame.refl c).mailbox,
        (Frame.refl c).events, id⟩

theorem finish_fst (r : Console × Option String) : (command.finish lib r).1 = r.1 := by
  obtain ⟨c, err⟩ := r
  cases err <;> rfl

/-- What a command does. -/
theorem command_spec (cmd : Command) :
    c.Touched (c.command lib env cmd).1 ∧ c.Frame (c.command lib env cmd).1 := by
  have hsame := Frame.refl c
  cases cmd with
  | exit | quit => exact ⟨.left rfl rfl, rfl, hsame.mailbox, hsame.events, id⟩
  | spawn count type =>
      rw [command, finish_fst, spawnCluster]
      split_ifs with hempty
      · exact ⟨.spawned (List.isEmpty_iff.1 hempty) rfl rfl, rfl, hsame.mailbox, hsame.events, id⟩
      · exact ⟨.kept rfl rfl, hsame⟩
  | stop node =>
      rw [command, finish_fst]
      exact atNode_spec node fun n => ⟨.stop, trivial, rfl⟩
  | start node _ _ type | restart node type =>
      rw [command, finish_fst]
      exact atNode_spec node fun n => ⟨.start n.port n.seeds type, ⟨rfl, rfl⟩, rfl⟩
  | appendToStream node stream =>
      rw [command, finish_fst]
      refine atNode_spec node fun n => ?_
      cases stream with
      | none => exact ⟨.appendStream _ _, trivial, rfl⟩
      | some name => exact ⟨.appendStream name _, trivial, rfl⟩
  | readStream node stream =>
      rw [command, finish_fst]
      exact atNode_spec node fun n => ⟨.readStream stream, trivial, rfl⟩
  | status node =>
      rw [command, finish_fst]
      exact atNode_spec node fun n => ⟨.status, trivial, rfl⟩
  | pingNode node =>
      show c.Touched (c.pingNode node) ∧ c.Frame (c.pingNode node)
      rw [pingNode]
      cases hn : c.nodes[node]? with
      | some n =>
          have hfits : n.Fits .ping := trivial
          exact ⟨.told hn hfits rfl rfl, rfl, hsame.mailbox, hsame.events, id⟩
      | none =>
          refine ⟨.kept rfl rfl, rfl, ⟨_, rfl, fun event hevent => ?_⟩, hsame.events, id⟩
          exact ⟨_, _, List.mem_singleton.1 hevent⟩
  | pingExternal host port => exact ⟨.kept rfl rfl, rfl, hsame.mailbox, hsame.events, id⟩

/-- What the line in the prompt does. -/
theorem perform_spec :
    c.Touched (c.perform lib env).1 ∧ c.Frame (c.perform lib env).1 := by
  rw [perform]
  split_ifs
  · exact ⟨.kept rfl rfl, .refl c⟩
  · cases lib.tryParseFrom (" " :: split c.state.prompt) with
    | error => exact ⟨.kept rfl rfl, .refl c⟩
    | ok cmd => exact command_spec cmd

/-- What a key does. -/
theorem onInput_spec {key : Key} {go : Bool} (h : c.onInput lib env key = some (c', go)) :
    c.Touched c' ∧ c.Frame c' := by
  rw [onInput] at h
  split_ifs at h with henter
  · obtain ⟨⟨state, go'⟩, hcommand, heq⟩ := Option.bind_eq_some_iff.1 h
    obtain ⟨rfl, _⟩ := Prod.mk.inj (Option.some.inj heq)
    exact ⟨perform_spec.1.state, perform_spec.2.state (State.inRange_onCommand hcommand)⟩
  · obtain ⟨⟨state, go'⟩, hinput, heq⟩ := Option.bind_eq_some_iff.1 h
    obtain ⟨rfl, _⟩ := Prod.mk.inj (Option.some.inj heq)
    exact ⟨.kept rfl rfl, (Frame.refl c).state (State.inRange_onInput hinput)⟩

/-- What an event does that is no status. -/
theorem onEvent_spec {event : ReplEvent} {go : Bool}
    (h : c.onEvent lib env event = some (c', go))
    (hother : ∀ node status, event ≠ .nodeStatusReceived node status) :
    c.Touched c' ∧ c.Frame c' := by
  have hsame := Frame.refl c
  cases event with
  | input key => exact onInput_spec h
  | nodeStatusReceived node status => exact absurd rfl (hother node status)
  | notification msg type =>
      obtain ⟨rfl, _⟩ := Prod.mk.inj (Option.some.inj h)
      have hpushed : ∀ color, c.Touched (c.pushEvent env color msg) ∧
          c.Frame (c.pushEvent env color msg) := by
        refine fun color =>
          ⟨.kept rfl rfl, rfl, hsame.mailbox, ⟨_, rfl, fun item hitem => ?_⟩, id⟩
        exact ⟨_, _, List.mem_singleton.1 hitem⟩
      cases type <;> exact hpushed _
  | streamRead node stream events =>
      obtain ⟨c₁, hread, heq⟩ := Option.map_eq_some_iff.1 h
      obtain ⟨rfl, _⟩ := Prod.mk.inj heq
      obtain ⟨text, _, heq⟩ := Option.bind_eq_some_iff.1 hread
      obtain rfl := Option.some.inj heq
      exact ⟨.kept rfl rfl, hsame.state id⟩
  | statusRead node status =>
      obtain ⟨rfl, _⟩ := Prod.mk.inj (Option.some.inj h)
      exact ⟨.kept rfl rfl, hsame.state id⟩

/-- The console takes an event. -/
theorem moved_of_onEvent {event : ReplEvent} {rest : List ReplEvent} {go : Bool}
    (hrunning : c.phase = .running) (hmailbox : c.mailbox = event :: rest)
    (hevent : { c with mailbox := rest }.onEvent lib env event = some (c', go)) :
    c.Moved (.handle env) c' := by
  by_cases hstatus : ∃ node status, event = .nodeStatusReceived node status
  · obtain ⟨node, status, rfl⟩ := hstatus
    obtain ⟨c₂, hchanged, heq⟩ := Option.map_eq_some_iff.1 hevent
    obtain ⟨rfl, _⟩ := Prod.mk.inj heq
    obtain ⟨n, hn, heq⟩ := Option.bind_eq_some_iff.1 hchanged
    obtain rfl := Option.some.inj heq
    exact .reported hrunning hmailbox hn
  · have hother : ∀ node status, event ≠ .nodeStatusReceived node status :=
      fun node status heq => hstatus ⟨node, status, heq⟩
    obtain ⟨htouched, hframe⟩ := onEvent_spec hevent hother
    exact .handled hrunning hmailbox hother htouched hframe

/-- **The case analysis of a step.** -/
theorem next_moved {a : ConsoleAction} (hnext : c.next lib a c') : c.Moved a c' := by
  rw [next, step.eq_def] at hnext
  cases a with
  | press key =>
      obtain rfl := Option.some.inj hnext
      exact .pressed
  | handle env =>
      dsimp only at hnext
      split at hnext
      next event rest hrunning hmailbox =>
        obtain ⟨⟨c₁, go⟩, hevent, rfl⟩ := Option.map_eq_some_iff.1 hnext
        exact moved_of_onEvent hrunning hmailbox hevent
      next => cases hnext
  | work i remote =>
      obtain ⟨n, hn, hnext⟩ := Option.bind_eq_some_iff.1 hnext
      obtain ⟨⟨worker, procs⟩, hwork, heq⟩ := Option.bind_eq_some_iff.1 hnext
      obtain rfl := Option.some.inj heq
      obtain ⟨cmd, rest, hlive, hsent, hinbox, rfl, rfl⟩ := Worker.work_eq_some hwork
      exact .worked hn hlive hsent hinbox
  | poll i remote =>
      obtain ⟨n, hn, hnext⟩ := Option.bind_eq_some_iff.1 hnext
      obtain ⟨worker, hpoll, heq⟩ := Option.bind_eq_some_iff.1 hnext
      obtain rfl := Option.some.inj heq
      obtain ⟨hlive, hsent, hinbox, rfl⟩ := Worker.poll_eq_some hpoll
      exact .polled hn hlive hsent hinbox
  | send i =>
      obtain ⟨n, hn, hnext⟩ := Option.bind_eq_some_iff.1 hnext
      obtain ⟨⟨event, worker⟩, hsend, heq⟩ := Option.bind_eq_some_iff.1 hnext
      obtain rfl := Option.some.inj heq
      obtain ⟨rest, houtbox, rfl⟩ := Worker.send_eq_some hsend
      exact .sent hn houtbox
  | pong host port result =>
      dsimp only at hnext
      split_ifs at hnext with hmem
      obtain rfl := Option.some.inj hnext
      refine .ponged hmem fun event hevent => ?_
      match result with
      | some true => exact ⟨_, _, List.mem_singleton.1 hevent⟩
      | some false => exact ⟨_, _, List.mem_singleton.1 hevent⟩
      | none => exact absurd hevent List.not_mem_nil
  | draw viewHeight =>
      dsimp only at hnext
      split_ifs at hnext with hrunning
      obtain rfl := Option.some.inj hnext
      rw [draw]
      split_ifs
      · exact @Moved.drawn c viewHeight 0 hrunning
      · exact .drawn hrunning
  | cleanup =>
      dsimp only at hnext
      split_ifs at hnext with hclosing
      obtain rfl := Option.some.inj hnext
      rw [Console.cleanup]
      cases hlast : c.nodes.getLast? with
      | none => exact .closed hclosing (List.getLast?_eq_none_iff.1 hlast)
      | some n => exact .asked hclosing hlast
  | reap =>
      dsimp only at hnext
      split at hnext
      next n hclosing hlast =>
        split_ifs at hnext with hdone
        obtain rfl := Option.some.inj hnext
        exact .reaped hclosing hlast hdone.1 hdone.2
      next => cases hnext

end

end Console

/-- The runs of the console, over a history file with the bytes, whatever becomes of the calls on
it. -/
def ConsoleRun (lib : Lib) (content : Bytes) (h : List (Step Console ConsoleAction))
    (c : Console) : Prop :=
  ∃ calls init, Console.new content calls = some init ∧ Run (Console.next lib) init h c

/-- A run of the console over an empty file, by evaluation. -/
theorem ConsoleRun.exists_of_replay (lib : Lib) (calls : List Io) (as : List ConsoleAction)
    (P : List (Step Console ConsoleAction) → Console → Prop) [∀ h c, Decidable (P h c)]
    (hcheck : ((Console.new [] calls).bind fun init => replay (Console.step lib) [] init as).any
      (fun x => decide (P x.1 x.2)) = true) :
    ∃ h c, ConsoleRun lib [] h c ∧ P h c := by
  rw [Option.any_bind] at hcheck
  obtain ⟨init, hnew, hcheck⟩ := (Option.any_eq_true _ _).1 hcheck
  obtain ⟨h, c, hrun, hP⟩ := Run.exists_of_replay as P hcheck
  exact ⟨h, c, ⟨calls, init, hnew, hrun⟩, hP⟩

end Repl
end RaftPlayground
