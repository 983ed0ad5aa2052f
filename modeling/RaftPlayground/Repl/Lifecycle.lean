/-
# What every run of the console keeps

A row of the console and its worker belong together: the worker reports the status of its own row,
is started with the ports of its row, and has nothing left to stop once it is done.  A status in the
mailbox is that of a row, and the history is in range (`Console.Sound`).

So a running console takes every event but two.  It panics at an event of a stream whose payload
is no JSON, which `serialize_records` unwraps, and at the key that enters a line which cannot be
written to the history file, for `on_command` unwraps what `push` returns (`console_stuck_iff`).
-/

import RaftPlayground.Repl.Console

namespace RaftPlayground
namespace Repl

open Protocol
open Server (Bytes)

/-- What is true of the row with the number. -/
structure Node.Sound (i : ℕ) (n : Node) : Prop where
  index : n.worker.handler.index = i
  outbox : ∀ event ∈ n.worker.outbox, event.Of i
  fits : ∀ cmd ∈ n.worker.inbox, cmd ≠ .cleanup → n.Fits cmd
  ended : n.worker.done = true → n.worker.handler.server = none

namespace ReplEvent

/-- A status that is reported is that of one of so many rows. -/
def Below (rows : ℕ) : ReplEvent → Prop
  | nodeStatusReceived node _ => node < rows
  | input _ | notification .. | streamRead .. | statusRead .. => True

variable {event : ReplEvent} {i rows rows' : ℕ}

theorem Below.mono (h : event.Below rows) (hle : rows ≤ rows') : event.Below rows' := by
  cases event with
  | nodeStatusReceived => exact lt_of_lt_of_le h hle
  | input | notification | streamRead | statusRead => exact trivial

theorem Of.below (h : event.Of i) (hi : i < rows) : event.Below rows := by
  cases event with
  | nodeStatusReceived => exact lt_of_eq_of_lt h hi
  | input | notification | streamRead | statusRead => exact trivial

theorem below_of_notification {notes : List ReplEvent}
    (h : ∀ event ∈ notes, ∃ msg type, event = notification msg type) :
    ∀ event ∈ notes, event.Below rows := by
  intro event hevent
  obtain ⟨msg, type, rfl⟩ := h event hevent
  exact trivial

end ReplEvent

/-- What is true of every console. -/
structure Console.Sound (c : Console) : Prop where
  rows : ∀ (i : ℕ) (n : Node), c.nodes[i]? = some n → n.Sound i
  mailbox : c.phase = .running → ∀ event ∈ c.mailbox, event.Below c.nodes.length
  range : c.state.history.InRange

section

variable {i j : ℕ} {n n' : Node} {rows : List Node} {row : ℕ → Node → Prop}

theorem Node.Sound.new (i port : ℕ) (seeds : List ℕ) (type : ProcType) :
    (Node.new i port seeds type).Sound i where
  index := rfl
  outbox := fun _ hevent => absurd hevent List.not_mem_nil
  fits := List.forall_mem_singleton.2 fun _ => ⟨rfl, rfl⟩
  ended := fun hdone => absurd hdone Bool.false_ne_true

/-- A command that fits is put into the inbox. -/
theorem Node.Sound.tell (h : n.Sound i) {cmd : NodeCmd} (hcmd : cmd ≠ .cleanup → n.Fits cmd) :
    (n.tell cmd).Sound i where
  index := h.index
  outbox := h.outbox
  fits := List.forall_mem_append.2 ⟨h.fits, List.forall_mem_singleton.2 hcmd⟩
  ended := h.ended

/-- A row takes a command, given what its handler makes of it. -/
theorem Node.Sound.work (h : n.Sound i) {cmd : NodeCmd} {rest : List NodeCmd}
    (hinbox : n.worker.inbox = cmd :: rest) (remote : Remote) (procs : Procs) :
    Node.Sound i
      { n with
        worker :=
          { handler := (n.worker.handler.run remote procs cmd).1
            inbox := rest
            outbox := (n.worker.handler.run remote procs cmd).2.2
            done := cmd = .cleanup } } where
  index := (CommandHandler.run_ran remote _ procs cmd).index.trans h.index
  outbox := h.index ▸ CommandHandler.run_of remote _ procs cmd
  fits := fun cmd' hcmd' => h.fits cmd' (hinbox ▸ List.mem_cons_of_mem _ hcmd')
  ended := by
    intro hdone
    obtain rfl := of_decide_eq_true hdone
    exact CommandHandler.server_run_cleanup remote _ procs

/-- What is true of the rows is true of them once one was replaced by such a row. -/
theorem rows_set (h : ∀ j m, rows[j]? = some m → row j m) (hi : row i n') :
    ∀ j m, (rows.set i n')[j]? = some m → row j m := by
  intro j m hm
  rw [List.getElem?_set] at hm
  split_ifs at hm with hij
  · obtain rfl := Option.some.inj hm
    exact hij ▸ hi
  · exact h j m hm

theorem rows_dropLast (h : ∀ j m, rows[j]? = some m → row j m) :
    ∀ j m, rows.dropLast[j]? = some m → row j m := by
  intro j m hm
  rw [List.getElem?_dropLast] at hm
  split_ifs at hm
  exact h j m hm

/-- The rows of a new cluster. -/
theorem getElem?_spawned {count : ℕ} {type : ProcType}
    (h : (Console.spawned count type)[i]? = some n) : i < count ∧
      n = Node.new i ((2113 + i) % 2 ^ 16)
        ((Console.allNodes count).filter (· ≠ (2113 + i) % 2 ^ 16)) type := by
  rw [Console.spawned, List.getElem?_mapIdx, Option.map_eq_some_iff] at h
  obtain ⟨port, hport, rfl⟩ := h
  rw [Console.allNodes, List.getElem?_map, Option.map_eq_some_iff] at hport
  obtain ⟨idx, hidx, rfl⟩ := hport
  obtain ⟨hi, heq⟩ := List.getElem?_eq_some_iff.1 hidx
  rw [List.length_range] at hi
  rw [List.getElem_range] at heq
  exact ⟨hi, heq ▸ rfl⟩

end

namespace Console

variable {lib : Lib} {c c' : Console} {a : ConsoleAction}

/-- The rows are sound after an event that is no status, and there are no fewer. -/
theorem Touched.rows (htouched : c.Touched c')
    (h : ∀ (i : ℕ) (n : Node), c.nodes[i]? = some n → n.Sound i) :
    (∀ (i : ℕ) (n : Node), c'.nodes[i]? = some n → n.Sound i) ∧
      c.nodes.length ≤ c'.nodes.length := by
  cases htouched with
  | kept nodes | left nodes =>
      rw [nodes]
      exact ⟨h, le_rfl⟩
  | @told i n cmd node fits nodes =>
      rw [nodes, List.length_set]
      exact ⟨rows_set h ((h i n node).tell fun _ => fits), le_rfl⟩
  | spawned empty nodes =>
      rw [nodes, empty]
      refine ⟨fun i n hn => ?_, Nat.zero_le _⟩
      obtain ⟨_, rfl⟩ := getElem?_spawned hn
      exact .new i _ _ _

/-- **One step** keeps a console sound. -/
theorem Sound.next (hc : c.Sound) (hnext : c.next lib a c') : c'.Sound := by
  cases next_moved hnext with
  | pressed =>
      refine ⟨hc.rows, fun hrunning => ?_, hc.range⟩
      exact List.forall_mem_append.2 ⟨hc.mailbox hrunning, List.forall_mem_singleton.2 trivial⟩
  | reported running mailbox found =>
      have hrow := hc.rows _ _ found
      refine ⟨rows_set hc.rows ⟨hrow.index, hrow.outbox, hrow.fits, hrow.ended⟩, fun _ => ?_,
        hc.range⟩
      rw [List.length_set]
      exact fun event hevent => hc.mailbox running event (mailbox ▸ List.mem_cons_of_mem _ hevent)
  | handled running mailbox other touched frame =>
      obtain ⟨hrows, hle⟩ := touched.rows hc.rows
      refine ⟨hrows, fun _ => ?_, frame.range hc.range⟩
      obtain ⟨notes, hmailbox, hnotes⟩ := frame.mailbox
      rw [hmailbox]
      refine List.forall_mem_append.2
        ⟨fun event hevent => ?_, ReplEvent.below_of_notification hnotes⟩
      exact (hc.mailbox running event (mailbox ▸ List.mem_cons_of_mem _ hevent)).mono hle
  | @worked i remote n cmd rest node live sent inbox =>
      refine ⟨rows_set hc.rows ((hc.rows i n node).work inbox remote c.procs), ?_, hc.range⟩
      rw [List.length_set]
      exact hc.mailbox
  | @polled i remote n node live sent inbox =>
      have hrow := hc.rows i n node
      refine ⟨rows_set hc.rows ⟨hrow.index, ?_, hrow.fits, hrow.ended⟩, ?_, hc.range⟩
      · exact List.forall_mem_singleton.2 hrow.index
      · rw [List.length_set]
        exact hc.mailbox
  | @sent i n event rest node outbox =>
      have hrow := hc.rows i n node
      have hof := List.forall_mem_cons.1 (outbox ▸ hrow.outbox)
      refine ⟨rows_set hc.rows ⟨hrow.index, hof.2, hrow.fits, hrow.ended⟩, fun hrunning => ?_,
        hc.range⟩
      rw [List.length_set]
      have hi : i < c.nodes.length := (List.getElem?_eq_some_iff.1 node).1
      exact List.forall_mem_append.2
        ⟨hc.mailbox hrunning, List.forall_mem_singleton.2 (hof.1.below hi)⟩
  | drawn => exact ⟨hc.rows, hc.mailbox, hc.range⟩
  | ponged mem texts =>
      refine ⟨hc.rows, fun hrunning => ?_, hc.range⟩
      exact List.forall_mem_append.2
        ⟨hc.mailbox hrunning, ReplEvent.below_of_notification texts⟩
  | @asked n closing last =>
      have hlast : c.nodes[c.nodes.length - 1]? = some n := List.getLast?_eq_getElem? ▸ last
      have hrow := (hc.rows _ n hlast).tell fun hne => absurd rfl hne
      refine ⟨rows_set hc.rows hrow, fun hrunning => ?_, hc.range⟩
      cases hrunning
  | closed => exact ⟨hc.rows, fun hrunning => ConsolePhase.noConfusion hrunning, hc.range⟩
  | reaped =>
      exact ⟨rows_dropLast hc.rows, fun hrunning => ConsolePhase.noConfusion hrunning, hc.range⟩

end Console

section

variable {lib : Lib} {content : Bytes} {h : List (Step Console ConsoleAction)} {c : Console}

/-- **Every console is sound.** -/
theorem ConsoleRun.sound (hrun : ConsoleRun lib content h c) : c.Sound := by
  obtain ⟨calls, init, hnew, hrun⟩ := hrun
  refine hrun.invariant (fun _ => True) (fun _ c => c.Sound) ?_
    (fun _ _ _ _ _ hc hnext _ => hc.next hnext) fun _ _ => trivial
  obtain ⟨state, hstate, heq⟩ := Option.bind_eq_some_iff.1 hnew
  obtain ⟨history, hhistory, hsome⟩ := Option.bind_eq_some_iff.1 hstate
  obtain rfl := Option.some.inj heq
  obtain rfl := Option.some.inj hsome
  refine ⟨fun i n hn => ?_, fun _ _ hevent => absurd hevent List.not_mem_nil, inRange_new hhistory⟩
  cases List.getElem?_nil.symm.trans hn

end

/-! ### No panic -/

/-- The payloads of a stream that was read are JSON. -/
def ReplEvent.Readable (lib : Lib) : ReplEvent → Prop
  | .streamRead _ _ events => ∀ e ∈ events, (lib.toStringPretty e.payload).isSome = true
  | .input _ | .notification .. | .nodeStatusReceived .. | .statusRead .. => True

/-- The event is the key that enters a line, and the line is refused. -/
def Console.Refuses (c : Console) (event : ReplEvent) : Prop :=
  event = .input .enter ∧ c.state.popup.shown = false ∧ c.state.Refused

namespace Console

variable {lib : Lib} {env : ConsoleEnv} {c : Console} {event : ReplEvent}

theorem isSome_serializeRecords (events : List Server.RecordedEvent) :
    (serializeRecords lib events).isSome = true ↔
      ∀ e ∈ events, (lib.toStringPretty e.payload).isSome = true := by
  induction events with
  | nil => exact iff_of_true rfl fun _ he => absurd he List.not_mem_nil
  | cons e events ih =>
      rw [List.forall_mem_cons, ← ih, serializeRecords, recordSize]
      cases lib.toStringPretty e.payload with
      | none => exact iff_of_false Bool.false_ne_true fun h => absurd h.1 Bool.false_ne_true
      | some payload =>
          cases serializeRecords lib events with
          | none => exact iff_of_false Bool.false_ne_true fun h => absurd h.2 Bool.false_ne_true
          | some rest => exact iff_of_true rfl ⟨rfl, rfl⟩

/-- **A key is taken**, unless it enters a line that is refused. -/
theorem isSome_onInput (hin : c.state.history.InRange) (key : Key) :
    (c.onInput lib env key).isSome = true ↔ ¬ c.Refuses (.input key) := by
  rw [onInput]
  split_ifs with henter
  · obtain ⟨hhidden, rfl⟩ := henter
    rw [onCommand]
    by_cases hrefused : c.state.Refused
    · rw [State.onCommand_of_refused hrefused]
      have hrefuses : c.Refuses (.input .enter) :=
        ⟨rfl, Bool.eq_false_of_not_eq_true hhidden, hrefused⟩
      exact iff_of_false Bool.false_ne_true (not_not.2 hrefuses)
    · obtain ⟨s', go, hs', _⟩ := State.exists_onCommand
        { edited := env.edited, outcome := (c.perform lib env).2 } hrefused
      rw [hs']
      exact iff_of_true rfl fun hrefuses => hrefused hrefuses.2.2
  · have hstored : c.state.popup.shown = false → key = .enter → ¬ c.state.Refused :=
      fun hhidden hkey => absurd ⟨by simp [hhidden], hkey⟩ henter
    obtain ⟨s', go, hs', _⟩ :=
      State.exists_onInput { edited := env.edited, outcome := .done } key hin hstored
    rw [hs']
    refine iff_of_true rfl fun hrefuses => ?_
    obtain ⟨hkey, hhidden, hrefused⟩ := hrefuses
    exact hstored hhidden (ReplEvent.input.inj hkey) hrefused

/-- **An event is taken** if a status is that of a row, a stream can be shown and a line that is
entered can be stored, and only then. -/
theorem isSome_onEvent (hin : c.state.history.InRange) (hbelow : event.Below c.nodes.length) :
    (c.onEvent lib env event).isSome = true ↔ event.Readable lib ∧ ¬ c.Refuses event := by
  cases event with
  | input key => exact (isSome_onInput hin key).trans (and_iff_right trivial).symm
  | notification | statusRead => exact iff_of_true rfl ⟨trivial, fun hrefuses => nomatch hrefuses.1⟩
  | nodeStatusReceived node status =>
      refine iff_of_true ?_ ⟨trivial, fun hrefuses => nomatch hrefuses.1⟩
      rw [onEvent, onNodeConnectivityChanged, List.getElem?_eq_getElem hbelow]
      rfl
  | streamRead node stream events =>
      have hno : ¬ c.Refuses (.streamRead node stream events) := fun hrefuses => nomatch hrefuses.1
      rw [and_iff_left hno, ReplEvent.Readable, ← isSome_serializeRecords, onEvent,
        onNodeStreamRead]
      cases serializeRecords lib events with
      | none => exact Iff.rfl
      | some text => exact Iff.rfl

end Console

section

variable {lib : Lib} {content : Bytes} {h : List (Step Console ConsoleAction)} {c : Console}

/-- **The only panics of the console.**  In every run, whatever is typed, whatever the servers
answer and whatever becomes of the history file, a running console takes the next event of its
mailbox, unless it is a stream with a payload that is no JSON, or the key that enters a line the
file refuses. -/
theorem console_stuck_iff (hrun : ConsoleRun lib content h c) (hrunning : c.phase = .running)
    {event : ReplEvent} {rest : List ReplEvent} (hmailbox : c.mailbox = event :: rest)
    (env : ConsoleEnv) :
    c.step lib (.handle env) = none ↔ ¬ event.Readable lib ∨ c.Refuses event := by
  have hsound := hrun.sound
  have hbelow : event.Below c.nodes.length :=
    hsound.mailbox hrunning event (hmailbox ▸ List.mem_cons_self)
  have htaken : ({ c with mailbox := rest }.onEvent lib env event).isSome = true ↔
      event.Readable lib ∧ ¬ c.Refuses event := Console.isSome_onEvent hsound.range hbelow
  have hwhen : (¬ event.Readable lib ∨ c.Refuses event) ↔
      ¬ (event.Readable lib ∧ ¬ c.Refuses event) := by rw [not_and_not_right, imp_iff_not_or]
  rw [hwhen, ← htaken, Bool.not_eq_true, Option.isSome_eq_false_iff, Option.isNone_iff_eq_none]
  rw [Console.step, hrunning, hmailbox]
  exact Option.map_eq_none_iff

end

/-- What the packages make of the lines that are typed below. -/
def Lib.sample : Lib where
  tryParseFrom
    | [" ", "spawn", "--count", "3"] => .ok (.spawn 3 .managed)
    | [" ", "restart", "--node", "0"] => .ok (.restart 0 .managed)
    | [" ", "read-stream", "0", "--stream", "s"] => .ok (.readStream 0 "s")
    | [" ", "exit"] => .ok .exit
    | _ => .error { width := 40, height := 5 }
  toVec name value := Server.asBytes ("\x7b\"" ++ name ++ "\":\"" ++ value ++ "\"\x7d")
  toStringPretty payload := if payload = Server.asBytes "1" then some ⟨1, 1⟩ else none
  debug status := { width := if status.isSome then 120 else 4, height := 1 }
  width := String.length

/-- A line is typed, and handled. -/
def typed (line : String) : List ConsoleAction :=
  let env : ConsoleEnv := { edited := line, elapsed := 0, names := fun _ => "name" }
  [.press (.char 'e'), .handle env, .press .enter, .handle env]

/-- What a worker hears from a server that answers, and has one event. -/
def Remote.sample (payload : Bytes) : Remote where
  read := .ok [.ok { streamId := "s", global := 1, revision := 0, payload }]
  append := some (.ok ())
  ping := true
  status := some ⟨"localhost", 2113, "follower", 0, 0, 0, "localhost", 2113⟩
  spawn := none

/-- Three nodes are spawned, and a stream of the first is read, whose only payload is no JSON. -/
def unreadable : List ConsoleAction :=
  let env : ConsoleEnv := { edited := "", elapsed := 0, names := fun _ => "name" }
  typed "spawn --count 3" ++ [.work 0 (.sample []), .send 0, .handle env] ++
    typed "read-stream 0 --stream s" ++
      [.work 0 (.sample [255]), .send 0, .handle env, .send 0]

/-- The file was read, and the first seek fails. -/
def unwritable : List Io := [.done, .failed 0]

/-- The console is stuck at the stream, and at the first line that is entered where the file cannot
be written. -/
theorem console_stuck_iff_unreadable :
    (∃ h c env, ConsoleRun .sample [] h c ∧ c.phase = .running ∧ c.nodes.length = 3 ∧
      c.step .sample (.handle env) = none) ∧
    ∃ h c env, ConsoleRun .sample [] h c ∧ c.phase = .running ∧ c.state.prompt = "exit" ∧
      c.step .sample (.handle env) = none := by
  let env : ConsoleEnv := { edited := "exit", elapsed := 0, names := fun _ => "name" }
  constructor
  · let event : ReplEvent := .streamRead 0 "s"
      [{ streamId := "s", global := 1, revision := 0, payload := [255] }]
    obtain ⟨h, c, hrun, hrunning, hrows, hmailbox⟩ :=
      ConsoleRun.exists_of_replay .sample [] unreadable
        (fun _ c => c.phase = .running ∧ c.nodes.length = 3 ∧ c.mailbox = [event])
        (by decide +kernel)
    have hbad : ¬ event.Readable .sample := by
      intro hreadable
      exact absurd (hreadable _ (List.mem_singleton.2 rfl)) (by decide +kernel)
    have hstuck := (console_stuck_iff hrun hrunning hmailbox env).2 (Or.inl hbad)
    exact ⟨h, c, env, hrun, hrunning, hrows, hstuck⟩
  · obtain ⟨h, c, hrun, hrunning, hmailbox, hprompt, hhidden, hrefused⟩ :=
      ConsoleRun.exists_of_replay .sample unwritable
        [.press (.char 'e'), .handle env, .press .enter]
        (fun _ c => c.phase = .running ∧ c.mailbox = [.input .enter] ∧ c.state.prompt = "exit" ∧
          c.state.popup.shown = false ∧ c.state.Refused) (by decide +kernel)
    have hstuck := (console_stuck_iff hrun hrunning hmailbox env).2
      (Or.inr ⟨rfl, hhidden, hrefused⟩)
    exact ⟨h, c, env, hrun, hrunning, hprompt, hstuck⟩

end Repl
end RaftPlayground
