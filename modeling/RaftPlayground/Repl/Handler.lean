/-
# The worker of a node

`CommandHandler` of `raft-repl/src/handler.rs`, and `node_command_handler` of `node.rs`, which
hands it one command after the other.

What an RPC returns, and whether a program could be spawned, is in `Remote`.  A managed server is
known by its number among those that were started, and told to shut down at most once.  A spawned
program is never killed: `kill` is a future, and `stop` does not await it.

A command puts its events into the outbox of the worker, and they leave it one by one, so that those
of several workers may mix; the next command is taken once the outbox is empty.  The worker waits a
second for a command, and then asks for the status by itself.
-/

import RaftPlayground.Repl.State

namespace RaftPlayground
namespace Repl

open Server (Bytes RecordedEvent)

/-- `ProcType`. -/
inductive ProcType
  | managed
  | binary
  | external
deriving DecidableEq, Repr

/-- `StatusResp`. -/
structure StatusResp where
  host : String
  port : ℕ
  status : String
  term : ℕ
  logIndex : ℕ
  global : ℕ
  leaderHost : String
  leaderPort : ℕ
deriving DecidableEq, Repr

/-- `NotificationType`. -/
inductive NotificationType
  | positive
  | negative
  | warning
deriving DecidableEq, Repr

/-- `ReplEvent`. -/
inductive ReplEvent
  | input (key : Key)
  | notification (msg : String) (type : NotificationType)
  | nodeStatusReceived (node : ℕ) (status : Option StatusResp)
  | streamRead (node : ℕ) (stream : String) (events : List RecordedEvent)
  | statusRead (node : ℕ) (status : Option StatusResp)
deriving DecidableEq, Repr

namespace ReplEvent

/-- `ReplEvent::msg`. -/
def msg (msg : String) : ReplEvent := notification msg .positive

/-- `ReplEvent::error`. -/
def error (msg : String) : ReplEvent := notification msg .negative

/-- `ReplEvent::warn`. -/
def warn (msg : String) : ReplEvent := notification msg .warning

/-- A status that is reported is the status of the node. -/
def Of (node : ℕ) : ReplEvent → Prop
  | nodeStatusReceived i _ => i = node
  | input _ | notification .. | streamRead .. | statusRead .. => True

end ReplEvent

/-- `NodeCmd`. -/
inductive NodeCmd
  | appendStream (streamName : String) (events : List Bytes)
  | readStream (streamName : String)
  | ping
  | start (port : ℕ) (seeds : List ℕ) (type : ProcType)
  | stop
  | cleanup
  | status
deriving DecidableEq, Repr

/-- A managed server that was started: its port, those of its seeds, and whether it was told to
shut down. -/
structure Managed where
  port : ℕ
  seeds : List ℕ
  told : Bool
deriving DecidableEq, Repr

/-- What the workers started, in this order: managed servers, and programs with their ports. -/
structure Procs where
  managed : List Managed
  children : List (ℕ × List ℕ)
deriving DecidableEq, Repr

namespace Procs

/-- `Node::shutdown` of the server with the number. -/
def shutdown (procs : Procs) (number : ℕ) : Procs :=
  { procs with managed := procs.managed.modify number fun s => { s with told := true } }

/-- `Node::new` and `Node::start`. -/
def start (procs : Procs) (port : ℕ) (seeds : List ℕ) : Procs :=
  { procs with managed := procs.managed ++ [{ port, seeds, told := false }] }

end Procs

/-- `ProcKind`, with the number of what was started. -/
inductive ProcKind
  | managed (number : ℕ)
  | external
  | spawn (number : ℕ)
deriving DecidableEq, Repr

/-- `ProcState`. -/
inductive ProcState
  | disconnected
  | connected (kind : ProcKind) (port : ℕ)
deriving DecidableEq, Repr

/-- What a command hears from outside: the responses of the RPCs or their errors, and the error of
a program that could not be spawned.  An append that times out returns nothing. -/
structure Remote where
  read : Except String (List (Except String RecordedEvent))
  append : Option (Except String Unit)
  ping : Bool
  status : Option StatusResp
  spawn : Option String

/-- `CommandHandler`. -/
structure CommandHandler where
  index : ℕ
  proc : ProcState
deriving DecidableEq, Repr

namespace CommandHandler

variable (remote : Remote) (h : CommandHandler)

/-- `CommandHandler::new`. -/
def new (index : ℕ) : CommandHandler := { index, proc := .disconnected }

/-- The text of the index. -/
def name : String := toString h.index

/-- `CommandHandler::read_stream`: an error in the middle of the stream ends nothing. -/
def readStream (streamName : String) : List ReplEvent :=
  let failed (message : String) : ReplEvent :=
    .error ("Reading stream '" ++ streamName ++ "' from node " ++ h.name ++ " caused an error: " ++
      message)
  match h.proc with
  | .connected .. =>
    match remote.read with
    | .error message => [failed message]
    | .ok items =>
      let failures := items.filterMap fun item =>
        match item with
        | .error message => some (failed message)
        | .ok _ => none
      let events := items.filterMap Except.toOption
      failures ++
        [.msg ("Reading stream '" ++ streamName ++ "' from node " ++ h.name ++ " was successful"),
          .streamRead h.index streamName events]
  | .disconnected =>
    [.error ("Can't read stream on node " ++ h.name ++ " because it isn't connected")]

/-- `CommandHandler::append_stream`. -/
def appendStream (streamName : String) : List ReplEvent :=
  match h.proc with
  | .connected .. =>
    match remote.append with
    | none =>
      [.error ("node " ++ h.name ++ ": timed out when appending stream " ++ streamName)]
    | some (.error message) =>
      [.error ("node " ++ h.name ++ ": Error when appending: " ++ message ++ " ")]
    | some (.ok ()) => [.msg ("node " ++ h.name ++ ": append successful")]
  | .disconnected =>
    [.error ("Can't append stream on node " ++ h.name ++ " because it isn't connected")]

/-- The status of the node, if it is connected and responds. -/
def current : Option StatusResp :=
  match h.proc with
  | .connected .. => remote.status
  | .disconnected => none

/-- `CommandHandler::status_req`. -/
def statusReq : List ReplEvent := [.statusRead h.index (h.current remote)]

/-- `CommandHandler::status`. -/
def status : List ReplEvent := [.nodeStatusReceived h.index (h.current remote)]

/-- `CommandHandler::ping`. -/
def ping : List ReplEvent :=
  match h.proc with
  | .connected .. =>
    if remote.ping then [.msg ("Ping node " ++ h.name ++ " ok")]
    else [.error ("Ping node " ++ h.name ++ " FAILED")]
  | .disconnected =>
    [.error ("Can't read status on node " ++ h.name ++ " because it isn't connected")]

/-- `CommandHandler::stop`. -/
def stop (procs : Procs) : CommandHandler × Procs × List ReplEvent :=
  match h.proc with
  | .disconnected => (h, procs, [])
  | .connected kind _ =>
    let stopping : ReplEvent := .msg ("Node " ++ h.name ++ " is stopping...")
    let stopped := { h with proc := .disconnected }
    match kind with
    | .managed number => (stopped, procs.shutdown number, [stopping])
    | .external =>
      (stopped, procs,
        [stopping,
          .warn ("Node " ++ h.name ++ " is an external process, we can't stop it")])
    -- a future that is dropped
    | .spawn _ => (stopped, procs, [stopping])

/-- `CommandHandler::start`. -/
def start (procs : Procs) (port : ℕ) (seeds : List ℕ) (type : ProcType) :
    CommandHandler × Procs × List ReplEvent :=
  let (h, procs, stopped) := h.stop procs
  let connected (kind : ProcKind) : CommandHandler := { h with proc := .connected kind port }
  match type with
  | .managed =>
    if (seeds.length + 1) % 2 = 0 then
      let failed : ReplEvent :=
        .error ("Node " ++ h.name ++ " errored upon starting: Cluster size is an even number " ++
          "which could cause issues for leader election")
      (h, procs, stopped ++ [failed] ++ h.status remote)
    else
      let h := connected (.managed procs.managed.length)
      (h, procs.start port seeds, stopped ++ h.status remote)
  | .binary =>
    match remote.spawn with
    | some message =>
      let failed : ReplEvent :=
        .error ("Node " ++ h.name ++ " errored upon spawning: " ++ message)
      (h, procs, stopped ++ [failed] ++ h.status remote)
    | none =>
      let h := connected (.spawn procs.children.length)
      let procs := { procs with children := procs.children ++ [(port, seeds)] }
      (h, procs, stopped ++ h.status remote)
  | .external =>
    let h := connected .external
    (h, procs, stopped ++ h.status remote)

/-- What the handler makes of a command. -/
def run (procs : Procs) : NodeCmd → CommandHandler × Procs × List ReplEvent
  | .appendStream streamName _ => (h, procs, h.appendStream remote streamName)
  | .readStream streamName => (h, procs, h.readStream remote streamName)
  | .start port seeds type => h.start remote procs port seeds type
  | .stop | .cleanup => h.stop procs
  | .ping => (h, procs, h.ping remote)
  | .status => (h, procs, h.statusReq remote)

end CommandHandler

/-- A worker: its handler, the commands it did not take yet, the events it did not send yet, and
whether it is done. -/
structure Worker where
  handler : CommandHandler
  inbox : List NodeCmd
  outbox : List ReplEvent
  done : Bool
deriving DecidableEq, Repr

namespace Worker

variable (remote : Remote) (w : Worker)

/-- A worker with its first command. -/
def new (index : ℕ) (cmd : NodeCmd) : Worker :=
  { handler := CommandHandler.new index, inbox := [cmd], outbox := [], done := false }

/-- A command is put into the inbox. -/
def tell (cmd : NodeCmd) : Worker := { w with inbox := w.inbox ++ [cmd] }

/-- `node_command_handler` takes its next command; a cleanup is the last. -/
def work (procs : Procs) : Option (Worker × Procs) :=
  match w.done, w.outbox, w.inbox with
  | false, [], cmd :: rest =>
    let (handler, procs, events) := w.handler.run remote procs cmd
    some ({ handler, inbox := rest, outbox := events, done := cmd = .cleanup }, procs)
  | _, _, _ => none

/-- `node_command_handler` waited for long enough. -/
def poll : Option Worker :=
  match w.done, w.outbox, w.inbox with
  | false, [], [] => some { w with outbox := w.handler.status remote }
  | _, _, _ => none

/-- The next event leaves the outbox. -/
def send : Option (ReplEvent × Worker) :=
  match w.outbox with
  | [] => none
  | event :: rest => some (event, { w with outbox := rest })

variable {remote w} {w' : Worker} {procs procs' : Procs} {event : ReplEvent}

/-- A command is taken by a worker that sent what it had to send. -/
theorem work_eq_some (h : w.work remote procs = some (w', procs')) :
    ∃ cmd rest, w.done = false ∧ w.outbox = [] ∧ w.inbox = cmd :: rest ∧
      procs' = (w.handler.run remote procs cmd).2.1 ∧
      w' =
        { handler := (w.handler.run remote procs cmd).1
          inbox := rest
          outbox := (w.handler.run remote procs cmd).2.2
          done := cmd = .cleanup } := by
  rw [work] at h
  split at h
  next cmd rest hlive hsent hinbox =>
    obtain ⟨rfl, rfl⟩ := Prod.mk.inj (Option.some.inj h)
    exact ⟨cmd, rest, hlive, hsent, hinbox, rfl, rfl⟩
  next => cases h

theorem poll_eq_some (h : w.poll remote = some w') : w.done = false ∧ w.outbox = [] ∧
    w.inbox = [] ∧ w' = { w with outbox := w.handler.status remote } := by
  rw [poll] at h
  split at h
  next hlive hsent hinbox => exact ⟨hlive, hsent, hinbox, (Option.some.inj h).symm⟩
  next => cases h

theorem send_eq_some (h : w.send = some (event, w')) :
    ∃ rest, w.outbox = event :: rest ∧ w' = { w with outbox := rest } := by
  rw [send] at h
  split at h
  next => cases h
  next _ rest houtbox =>
    obtain ⟨rfl, rfl⟩ := Prod.mk.inj (Option.some.inj h)
    exact ⟨rest, houtbox, rfl⟩

end Worker

/-! ### What a command does to the servers -/

namespace CommandHandler

/-- The number of the managed server the handler is connected to. -/
def server (h : CommandHandler) : Option ℕ :=
  match h.proc with
  | .connected (.managed number) _ => some number
  | .connected .external _ | .connected (.spawn _) _ | .disconnected => none

/-- The ways a command goes, for the servers: it leaves them alone, or stops the one that is there,
and may start another. -/
inductive Ran (h : CommandHandler) (procs : Procs) : NodeCmd → CommandHandler → Procs → Prop
  | kept {cmd} : Ran h procs cmd h procs
  | stopped {cmd h' procs'} (same : h'.index = h.index) (none : h'.server = none)
      (told : procs'.managed = (h.server.elim procs procs.shutdown).managed) :
      Ran h procs cmd h' procs'
  | started {port seeds h' procs'} (same : h'.index = h.index) (odd : (seeds.length + 1) % 2 ≠ 0)
      (new : h'.server = some procs.managed.length)
      (told : procs'.managed =
        (h.server.elim procs procs.shutdown).managed ++ [{ port, seeds, told := false }]) :
      Ran h procs (.start port seeds .managed) h' procs'

variable (remote : Remote) (h : CommandHandler) (procs : Procs)

theorem stop_eq : (h.stop procs).1 = { h with proc := .disconnected } ∧
    (h.stop procs).2.1 = h.server.elim procs procs.shutdown := by
  obtain ⟨index, proc⟩ := h
  match proc with
  | .disconnected | .connected (.managed _) _ | .connected .external _
  | .connected (.spawn _) _ => exact ⟨rfl, rfl⟩

theorem length_shutdown (o : Option ℕ) :
    (o.elim procs procs.shutdown).managed.length = procs.managed.length := by
  cases o with
  | none => rfl
  | some number => exact List.length_modify _ _ _

theorem stop_of : ∀ event ∈ (h.stop procs).2.2, event.Of h.index := by
  obtain ⟨index, proc⟩ := h
  match proc with
  | .disconnected => exact fun _ hevent => absurd hevent List.not_mem_nil
  | .connected (.managed _) _ | .connected (.spawn _) _ =>
      exact List.forall_mem_singleton.2 trivial
  | .connected .external _ =>
      exact List.forall_mem_cons.2 ⟨trivial, List.forall_mem_singleton.2 trivial⟩

theorem readStream_of (streamName : String) :
    ∀ event ∈ h.readStream remote streamName, event.Of h.index := by
  rw [readStream]
  cases h.proc with
  | disconnected => exact List.forall_mem_singleton.2 trivial
  | connected =>
      dsimp only
      cases remote.read with
      | error message => exact List.forall_mem_singleton.2 trivial
      | ok items =>
          refine List.forall_mem_append.2 ⟨fun event hevent => ?_, ?_⟩
          · obtain ⟨item, _, hitem⟩ := List.mem_filterMap.1 hevent
            cases item with
            | error message =>
                obtain rfl := Option.some.inj hitem
                exact trivial
            | ok => cases hitem
          · exact List.forall_mem_cons.2 ⟨trivial, List.forall_mem_singleton.2 trivial⟩

theorem start_of (port : ℕ) (seeds : List ℕ) (type : ProcType) :
    ∀ event ∈ (h.start remote procs port seeds type).2.2, event.Of h.index := by
  have hstop := stop_of h procs
  have hindex : (h.stop procs).1.index = h.index := by rw [(stop_eq h procs).1]
  rw [start]
  generalize h.stop procs = r at hstop hindex
  obtain ⟨h₁, procs₁, stopped⟩ := r
  match type with
  | .managed =>
      dsimp only
      split_ifs
      · exact List.forall_mem_append.2 ⟨List.forall_mem_append.2
          ⟨hstop, List.forall_mem_singleton.2 trivial⟩, List.forall_mem_singleton.2 hindex⟩
      · exact List.forall_mem_append.2 ⟨hstop, List.forall_mem_singleton.2 hindex⟩
  | .binary =>
      dsimp only
      cases remote.spawn with
      | some message =>
          exact List.forall_mem_append.2 ⟨List.forall_mem_append.2
            ⟨hstop, List.forall_mem_singleton.2 trivial⟩, List.forall_mem_singleton.2 hindex⟩
      | none => exact List.forall_mem_append.2 ⟨hstop, List.forall_mem_singleton.2 hindex⟩
  | .external => exact List.forall_mem_append.2 ⟨hstop, List.forall_mem_singleton.2 hindex⟩

/-- A worker reports the status of its own node. -/
theorem run_of (cmd : NodeCmd) : ∀ event ∈ (h.run remote procs cmd).2.2, event.Of h.index := by
  cases cmd with
  | appendStream streamName =>
      show ∀ event ∈ h.appendStream remote streamName, event.Of h.index
      rw [appendStream]
      match h.proc, remote.append with
      | .disconnected, _ | .connected .., none | .connected .., some (.error _)
      | .connected .., some (.ok ()) => exact List.forall_mem_singleton.2 trivial
  | readStream streamName => exact readStream_of remote h streamName
  | ping =>
      show ∀ event ∈ h.ping remote, event.Of h.index
      rw [ping]
      cases h.proc with
      | disconnected => exact List.forall_mem_singleton.2 trivial
      | connected =>
          dsimp only
          split_ifs
          · exact List.forall_mem_singleton.2 trivial
          · exact List.forall_mem_singleton.2 trivial
  | start port seeds type => exact start_of remote h procs port seeds type
  | stop | cleanup => exact stop_of h procs
  | status => exact List.forall_mem_singleton.2 trivial

/-- **What a command does to the servers.** -/
theorem run_ran (cmd : NodeCmd) :
    h.Ran procs cmd (h.run remote procs cmd).1 (h.run remote procs cmd).2.1 := by
  obtain ⟨hstop, hprocs⟩ := stop_eq h procs
  cases cmd with
  | appendStream | readStream | ping | status => exact .kept
  | stop | cleanup =>
      have hsame : (h.stop procs).1.index = h.index := by rw [hstop]
      have hnone : (h.stop procs).1.server = none := by rw [hstop]; rfl
      exact .stopped hsame hnone (congrArg Procs.managed hprocs)
  | start port seeds type =>
      rw [run, start]
      generalize h.stop procs = r at hstop hprocs
      obtain ⟨h₁, procs₁, stopped⟩ := r
      obtain rfl := hstop
      obtain rfl := hprocs
      match type with
      | .managed =>
          dsimp only
          split_ifs with heven
          · exact .stopped rfl rfl rfl
          · exact .started rfl heven (congrArg some (length_shutdown procs h.server)) rfl
      | .external => exact .stopped rfl rfl rfl
      | .binary =>
          dsimp only
          cases remote.spawn with
          | none => exact .stopped rfl rfl rfl
          | some message => exact .stopped rfl rfl rfl

theorem Ran.index {h h' : CommandHandler} {procs procs' : Procs} {cmd : NodeCmd}
    (hran : h.Ran procs cmd h' procs') : h'.index = h.index := by
  cases hran with
  | kept => rfl
  | stopped same | started same => exact same

theorem server_run_cleanup : (h.run remote procs .cleanup).1.server = none := by
  show (h.stop procs).1.server = none
  rw [(stop_eq h procs).1]
  rfl

end CommandHandler

end Repl
end RaftPlayground
