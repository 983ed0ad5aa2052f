/-
# The history of the prompt

`raft-repl/src/history.rs`: the entries, the oldest first, and the offset of the one the
prompt shows; at the head it shows none of them.  The two `expect`s of the lookups fail
where the offset is out of range, which is `none` here.
-/

import RaftPlayground.Repl.Persistence

namespace RaftPlayground
namespace Repl

open Server (Bytes)

/-- `History`. -/
structure History (A : Type) where
  entries : List String
  offset : ℕ
  persistence : A
  temp : String
deriving DecidableEq, Repr

namespace History

variable {A : Type} [Persistence A]

/-- `History::new`; `none` is the error of `load`. -/
def new (persistence : A) : Option (History A) := do
  let (persistence, loaded) := Persistence.load persistence
  let entries ← loaded
  some { temp := "", entries, offset := entries.length, persistence }

/-- `History::push`; `false` is the error of `persist`, which leaves before the offset is set. -/
def push (h : History A) (entry : String) : History A × Bool :=
  if h.entries.getLast? ≠ some entry then
    let entries := h.entries ++ [entry]
    let (persistence, ok) := Persistence.persist h.persistence entries
    let h := { h with entries, persistence }
    if ok then ({ h with offset := h.entries.length, temp := "" }, true) else (h, false)
  else ({ h with offset := h.entries.length, temp := "" }, true)

/-- A string that is not the last entry is stored; the offset is set if `persist` succeeds. -/
theorem push_of_persist {h : History A} {entry : String} {persistence : A} {ok : Bool}
    (hnew : h.entries.getLast? ≠ some entry)
    (hpersist : Persistence.persist h.persistence (h.entries ++ [entry]) = (persistence, ok)) :
    h.push entry =
      if ok then
        ({ h with
            entries := h.entries ++ [entry]
            offset := (h.entries ++ [entry]).length
            persistence
            temp := "" }, true)
      else ({ h with entries := h.entries ++ [entry], persistence }, false) := by
  rw [push, if_pos hnew]
  dsimp only
  rw [hpersist]

/-- A string that is the last entry is not stored. -/
theorem push_of_same {h : History A} {entry : String} (hsame : h.entries.getLast? = some entry) :
    h.push entry = ({ h with offset := h.entries.length, temp := "" }, true) :=
  if_neg (not_not.2 hsame)

omit [Persistence A]

/-- `History::offset_is_head`. -/
def offsetIsHead (h : History A) : Bool := h.offset == h.entries.length

/-- `History::prev_entry`. -/
def prevEntry (h : History A) : Option (History A × Option String) :=
  if h.entries.isEmpty then some (h, none)
  else if h.offset = 1 ∧ h.entries.length = 1 then some (h, h.entries.head?)
  else do
    let h := if h.offset ≥ 1 then { h with offset := h.offset - 1 } else h
    let line ← h.entries[h.offset]?
    some (h, some line)

/-- `History::next_entry`. -/
def nextEntry (h : History A) : Option (History A × Option String) :=
  if h.entries.isEmpty ∨ h.offset = h.entries.length then some (h, none)
  else
    let h := { h with offset := h.offset + 1 }
    if h.offset = h.entries.length then some (h, none)
    else do
      let line ← h.entries[h.offset]?
      some (h, some line)

/-! ### Where a lookup leads -/

section

variable {h : History A}

/-- `prev_entry` goes one back, but not from the only entry, and gives the entry there. -/
theorem prevEntry_eq (hin : h.offset ≤ h.entries.length) :
    h.prevEntry = some ({ h with
      offset := if h.entries.length = 1 then h.offset else h.offset - 1 },
      h.entries[h.offset - 1]?) := by
  obtain ⟨entries, offset, persistence, temp⟩ := h
  rw [prevEntry]
  match entries, hin with
  | [], hin =>
      obtain rfl : offset = 0 := Nat.le_zero.1 hin
      rfl
  | [entry], hin =>
      rcases Nat.le_one_iff_eq_zero_or_eq_one.1 hin with rfl | rfl
      · rfl
      · rfl
  | first :: second :: rest, hin =>
      cases offset with
      | zero => rfl
      | succ back =>
          have hback : back < (first :: second :: rest).length := hin
          rw [if_neg (by simp), if_neg (by simp),
            if_pos (show back + 1 ≥ 1 from Nat.succ_pos back)]
          show (first :: second :: rest)[back]?.bind _ = some (_, (first :: second :: rest)[back]?)
          rw [List.getElem?_eq_getElem hback, if_neg (by simp)]
          rfl

/-- `next_entry` goes one forward, up to the head, and gives the entry there. -/
theorem nextEntry_eq (hin : h.offset ≤ h.entries.length) :
    h.nextEntry = some ({ h with offset := min (h.offset + 1) h.entries.length },
      h.entries[h.offset + 1]?) := by
  rw [nextEntry]
  rcases hin.eq_or_lt with hhead | hlt
  · have hnone : h.entries[h.offset + 1]? = none := List.getElem?_eq_none (by omega)
    rw [if_pos (Or.inr hhead), hnone, Nat.min_eq_right (by omega), ← hhead]
  · have hne : h.entries.isEmpty = false := by
      rw [List.isEmpty_eq_false_iff]
      exact List.ne_nil_of_length_pos (Nat.zero_lt_of_lt hlt)
    rw [if_neg (by simp [hne, hlt.ne]), Nat.min_eq_left hlt]
    dsimp only
    split_ifs with hend
    · rw [List.getElem?_eq_none (Nat.le_of_eq hend.symm)]
    · have hin' : h.offset + 1 < h.entries.length := Nat.lt_of_le_of_ne hlt hend
      show h.entries[h.offset + 1]?.bind _ = _
      rw [List.getElem?_eq_getElem hin']
      rfl

end

end History

/-- `file_backed_history`, on a file with the given bytes. -/
def fileBackedHistory (content : Bytes) (calls : List Io) : Option (History FileBackend) :=
  History.new (FileBackend.new content calls)

end Repl
end RaftPlayground
