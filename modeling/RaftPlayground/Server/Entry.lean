/-
# The log of a node

`raft-server/src/entry.rs`, with `Entry` and `NodeId` of `raft-common/protos/raft.proto`.

The log is a vector of entries next to a cached `last_index` and `last_term`.
Nothing in the type ties an entry's `index` to its position: every search walks
the vector from the front and compares the stored indices, so what the searches
return on a log whose indices are not `1, 2, …, n` is decided by the loops below
and by nothing else.
-/

import Mathlib.Algebra.Group.Nat.Defs
import Mathlib.Data.List.Basic
import Mathlib.Data.Nat.Notation

namespace RaftPlayground
namespace Server

/-- A byte string (`bytes::Bytes`). -/
abbrev Bytes := List UInt8

/-- `a + b` on `u64`, wrapping.  A build with overflow checks panics where the
sum reaches `2 ^ 64`. -/
def addU64 (a b : ℕ) : ℕ := (a + b) % 2 ^ 64

theorem addU64_of_lt {a b : ℕ} (h : a + b < 2 ^ 64) : addU64 a b = a + b :=
  Nat.mod_eq_of_lt h

/-- `NodeId`, the address of a node.  `Default` is the empty host and port `0`. -/
structure NodeId where
  host : String
  port : ℕ
deriving DecidableEq, Repr

instance : Inhabited NodeId := ⟨⟨"", 0⟩⟩

/-- One entry of the log. -/
structure Entry where
  index : ℕ
  term : ℕ
  payload : Bytes
deriving DecidableEq, Repr

/-- The log with its cached tail. -/
structure Entries where
  inner : List Entry
  lastIndex : ℕ
  lastTerm : ℕ
deriving DecidableEq, Repr

instance : Inhabited Entries := ⟨⟨[], 0, 0⟩⟩

namespace Entries

/-- `Entries::add`. -/
def add (es : Entries) (entry : Entry) : Entries :=
  { inner := es.inner ++ [entry], lastIndex := entry.index, lastTerm := entry.term }

/-- `Entries::append`.  `none` is the failed `assert!(!other.is_empty())`. -/
def append (es : Entries) (other : List Entry) : Option Entries :=
  match other.getLast? with
  | none => none
  | some last =>
    some { inner := es.inner ++ other, lastIndex := last.index, lastTerm := last.term }

/-- The loop of `Entries::contains_log`: it stops at the first entry whose index
exceeds the one it looks for. -/
def containsLogLoop (index term : ℕ) : List Entry → Bool
  | [] => false
  | entry :: rest =>
    if entry.index = index ∧ entry.term = term then true
    else if entry.index > index then false
    else containsLogLoop index term rest

/-- `Entries::contains_log`.  Position `0` is known to an empty log only. -/
def containsLog (es : Entries) (index term : ℕ) : Bool :=
  if index = 0 ∧ es.inner.isEmpty then true else containsLogLoop index term es.inner

/-- `Entries::remove_uncommitted_entries_from`.  The cached tail is left as it is. -/
def removeUncommittedEntriesFrom (es : Entries) (index term : ℕ) : Entries :=
  { es with
    inner := es.inner.filter fun entry =>
      if entry.index < index then true
      else decide (entry.index ≥ index ∧ entry.term = term) }

/-- The loop of `Entries::get_previous_entry`, with its two accumulators. -/
def getPreviousEntryLoop (refIndex : ℕ) : List Entry → ℕ → ℕ → ℕ × ℕ
  | [], index, term => (index, term)
  | entry :: rest, index, term =>
    if entry.index = refIndex then (index, term)
    else getPreviousEntryLoop refIndex rest entry.index entry.term

/-- `Entries::get_previous_entry`. -/
def getPreviousEntry (es : Entries) (refIndex : ℕ) : ℕ × ℕ :=
  getPreviousEntryLoop refIndex es.inner 0 1

/-- The loop of `Entries::read_entries_from`.  The count is compared after the
push, so a batch holds at least one entry when there is one. -/
def readEntriesLoop (index maxCount : ℕ) : List Entry → ℕ → List Entry
  | [], _ => []
  | entry :: rest, count =>
    if entry.index ≤ index then readEntriesLoop index maxCount rest count
    else if count + 1 ≥ maxCount then [entry]
    else entry :: readEntriesLoop index maxCount rest (count + 1)

/-- `Entries::read_entries_from`. -/
def readEntriesFrom (es : Entries) (index maxCount : ℕ) : List Entry :=
  readEntriesLoop index maxCount es.inner 0

end Entries

/-- An event as `read_stream` returns it. -/
structure RecordedEvent where
  streamId : String
  global : ℕ
  revision : ℕ
  payload : Bytes
deriving DecidableEq, Repr

end Server
end RaftPlayground
