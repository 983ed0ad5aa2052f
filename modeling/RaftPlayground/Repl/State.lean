/-
# What a key does to the prompt

`on_input` and `on_command` of `raft-repl/src/state.rs`, with the popup of `ui/popup.rs` that
takes the keys while it is shown.

The prompt is one line, which `move_cursor(End)`, `delete_line_by_head` and `insert_str`
replace as a whole.  What the text area makes of any other key, how a command is read and
what becomes of it are in `Env`.  The nodes, the list of events and the drawing are left out:
neither the prompt nor the history depends on them.
-/

import RaftPlayground.Repl.History

namespace RaftPlayground
namespace Repl

open Server (Bytes)

/-- `Key`, of an `Input`. -/
inductive Key where
  | up
  | down
  | left
  | right
  | pageUp
  | pageDown
  | enter
  | char (c : Char)
  | other
deriving DecidableEq, Repr

/-- The size of a `Text`. -/
structure TextSize where
  width : ℕ
  height : ℕ
deriving DecidableEq, Repr

/-- `Popup`, with the size of its text. -/
structure Popup where
  title : String
  scrollVert : ℕ
  scrollHoriz : ℕ
  contentLengthVert : ℕ
  contentLengthHoriz : ℕ
  shown : Bool
deriving DecidableEq, Repr

namespace Popup

/-- `Popup::new`. -/
def new : Popup :=
  { shown := false, scrollVert := 0, scrollHoriz := 0, contentLengthVert := 0,
    contentLengthHoriz := 0, title := "" }

/-- `Popup::set_title`. -/
def setTitle (p : Popup) (title : String) : Popup := { p with title }

/-- `Popup::set_text`. -/
def setText (p : Popup) (text : TextSize) : Popup :=
  { p with
    contentLengthHoriz := text.width
    contentLengthVert := text.height
    scrollHoriz := 0
    scrollVert := 0 }

/-- `Popup::on_input`. -/
def onInput (p : Popup) : Key → Popup
  | .up => { p with scrollVert := p.scrollVert - 1 }
  | .pageDown => { p with scrollVert := p.contentLengthVert - 1 }
  | .pageUp => { p with scrollVert := 0 }
  | .left => { p with scrollHoriz := p.scrollHoriz - 1 }
  | .right => { p with scrollHoriz := min (p.scrollHoriz + 1) (p.contentLengthHoriz - 1) }
  | .down => { p with scrollVert := min (p.scrollVert + 1) (p.contentLengthVert - 1) }
  | .char 'q' | .enter => { p with shown := false }
  | .char _ | .other => p

end Popup

/-- What becomes of a command: `try_parse_from` refuses it, it leaves the program, it fails,
or it is done. -/
inductive Outcome where
  | invalid (error : TextSize)
  | exit
  | failed (error : TextSize)
  | done
deriving DecidableEq, Repr

/-- What one call reads from outside: the line `TextArea::input` leaves, and what becomes of
the command. -/
structure Env where
  edited : String
  outcome : Outcome

/-- `State`, with the line of its shell. -/
structure State where
  history : History FileBackend
  prompt : String
  popup : Popup
  tempPrompt : String
deriving DecidableEq, Repr

namespace State

/-- `State::new`, with the bytes of the history file. -/
def new (content : Bytes) (calls : List Io) : Option State := do
  let history ← fileBackedHistory content calls
  some { history, prompt := "", popup := Popup.new, tempPrompt := "" }

/-- The popup is shown with a title and a text. -/
def showPopup (s : State) (title : String) (text : TextSize) : State :=
  { s with popup := { (s.popup.setTitle title).setText text with shown := true } }

/-- The first of the pieces of the line between blanks. -/
def cmd (line : String) : String := String.ofList (line.toList.takeWhile (· ≠ ' '))

/-- `State::on_command`; `none` is the failed `unwrap` of `push`. -/
def onCommand (env : Env) (s : State) : Option (State × Bool) :=
  if s.prompt.isEmpty then some ({ s with prompt := "" }, true)
  else
    let cmdStr := s.prompt
    match s.history.push cmdStr with
    | (_, false) => none
    | (history, true) =>
      let s := { s with history }
      match env.outcome with
      | .invalid error =>
        let title := if cmd cmdStr = "help" then "Help" else "Command error"
        some ({ s.showPopup title error with prompt := "" }, true)
      | .exit => some (s, false)
      | .failed error => some ({ s.showPopup "Error" error with prompt := "" }, true)
      | .done => some ({ s with prompt := "" }, true)

/-- `State::on_input`; `none` is a panic. -/
def onInput (env : Env) (s : State) (key : Key) : Option (State × Bool) :=
  if s.popup.shown then some ({ s with popup := s.popup.onInput key }, true)
  else match key with
    | .up => do
      let s := if s.history.offsetIsHead then { s with tempPrompt := s.prompt } else s
      let (history, entry) ← s.history.prevEntry
      match entry with
      | some line => some ({ s with history, prompt := line }, true)
      | none => some ({ s with history }, true)
    | .down => do
      let (history, entry) ← s.history.nextEntry
      match entry with
      | some line => some ({ s with history, prompt := line }, true)
      | none =>
        if ¬ s.tempPrompt.isEmpty then some ({ s with history, prompt := s.tempPrompt }, true)
        else some ({ s with history }, true)
    | .enter => onCommand env s
    | _ => some ({ s with prompt := env.edited }, true)

end State

end Repl
end RaftPlayground
