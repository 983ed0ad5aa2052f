/-
# Streams in the log

`on_append_stream` and `on_read_stream` of `raft-server/src/machine.rs`.

An event is stored with its stream id in front: the length of the id as a
little-endian `u32`, the bytes of the id, the bytes of the event.  The writer
counts the length in characters and casts it to `u32`; the reader takes that
many bytes.  `get_u32_le` and `copy_to_bytes` panic on a buffer that is too
short, which is `none` here.
-/

import RaftPlayground.Server.Machine

namespace RaftPlayground
namespace Server

/-- `str::as_bytes`. -/
def asBytes (s : String) : Bytes := s.toByteArray.data.toList

theorem asBytes_eq (s : String) : asBytes s = s.toList.flatMap String.utf8EncodeChar := by
  rw [asBytes, ← String.utf8Encode_toList, List.utf8Encode, List.data_toByteArray]

/-- `BufMut::put_u32_le`. -/
def putU32Le (n : ℕ) : Bytes :=
  [UInt8.ofNat n, UInt8.ofNat (n / 256), UInt8.ofNat (n / 65536), UInt8.ofNat (n / 16777216)]

/-- `Buf::get_u32_le`, with the buffer left over. -/
def getU32Le : Bytes → Option (ℕ × Bytes)
  | a :: b :: c :: d :: rest =>
    some (a.toNat + 256 * b.toNat + 65536 * c.toNat + 16777216 * d.toNat, rest)
  | _ => none

/-- `Buf::copy_to_bytes`, with the buffer left over. -/
def copyToBytes (payload : Bytes) (len : ℕ) : Option (Bytes × Bytes) :=
  if len ≤ payload.length then some (payload.take len, payload.drop len) else none

/-- The length written in front of an id: its number of characters, `as u32`. -/
def streamIdLen (streamId : String) : ℕ := streamId.length % 2 ^ 32

/-- The payload `on_append_stream` stores for an event. -/
def putEvent (streamId : String) (event : Bytes) : Bytes :=
  putU32Le (streamIdLen streamId) ++ asBytes streamId ++ event

/-- The loop of `on_append_stream`: the log and the last index given. -/
def appendEventsLoop (streamId : String) (term : ℕ) : List Bytes → ℕ → Entries → Entries × ℕ
  | [], index, es => (es, index)
  | event :: events, index, es =>
    let index := addU64 index 1
    appendEventsLoop streamId term events index
      (es.add { index, term, payload := putEvent streamId event })

/-- The index behind the given one by as many steps of a `u64` as there are events. -/
def lastGiven (index count : ℕ) : ℕ := if count = 0 then index else (index + count) % 2 ^ 64

/-- The last index given depends on the number of events alone. -/
theorem eq_lastGiven {streamId : String} {term index last : ℕ} {events : List Bytes}
    {es stored : Entries}
    (h : appendEventsLoop streamId term events index es = (stored, last)) :
    last = lastGiven index events.length := by
  induction events generalizing index es with
  | nil => exact (Prod.mk.inj h).2.symm
  | cons event events ih =>
      rw [ih h, lastGiven, lastGiven, List.length_cons, if_neg (Nat.succ_ne_zero _), addU64]
      split_ifs with hnone
      · rw [hnone]
      · rw [Nat.mod_add_mod, Nat.add_assoc, Nat.add_comm 1]

theorem lastGiven_of_lt {index count : ℕ} (h : index + count < 2 ^ 64) :
    lastGiven index count = index + count := by
  rw [lastGiven]
  split_ifs with hnone
  · rw [hnone, Nat.add_zero]
  · exact Nat.mod_eq_of_lt h

/-- The entries `on_append_stream` stores for the events, behind the given index. -/
def newEntries (streamId : String) (term : ℕ) : List Bytes → ℕ → List Entry
  | [], _ => []
  | event :: events, index =>
    { index := addU64 index 1, term, payload := putEvent streamId event } ::
      newEntries streamId term events (addU64 index 1)

section

variable {streamId : String} {term index : ℕ} {events : List Bytes}

theorem appendEventsLoop_inner (es : Entries) :
    (appendEventsLoop streamId term events index es).1.inner =
      es.inner ++ newEntries streamId term events index := by
  induction events generalizing index es with
  | nil => exact (List.append_nil _).symm
  | cons event events ih =>
      rw [appendEventsLoop, ih, Entries.add, List.append_assoc]
      rfl

theorem map_payload_newEntries :
    (newEntries streamId term events index).map Entry.payload =
      events.map (putEvent streamId) := by
  induction events generalizing index with
  | nil => rfl
  | cons event events ih => rw [newEntries, List.map_cons, ih, List.map_cons]

theorem term_of_mem_newEntries {e : Entry} (he : e ∈ newEntries streamId term events index) :
    e.term = term := by
  induction events generalizing index with
  | nil => simp [newEntries] at he
  | cons event events ih =>
      rcases List.mem_cons.1 he with rfl | he
      · rfl
      · exact ih he

theorem payload_of_mem_newEntries {e : Entry}
    (he : e ∈ newEntries streamId term events index) :
    ∃ event ∈ events, e.payload = putEvent streamId event := by
  have hmem := @List.mem_map_of_mem _ _ _ _ Entry.payload he
  rw [map_payload_newEntries, List.mem_map] at hmem
  obtain ⟨event, hevent, heq⟩ := hmem
  exact ⟨event, hevent, heq.symm⟩

end

/-- The loop of `on_read_stream`.  The revision counts elements of a vector, so
it cannot overflow. -/
def readStreamLoop (streamId : String) : List Entry → ℕ → Option (List RecordedEvent)
  | [], _ => some []
  | entry :: rest, revision => do
    let (strLen, payload) ← getU32Le entry.payload
    let (strBytes, payload) ← copyToBytes payload strLen
    if strBytes = asBytes streamId then
      let batch ← readStreamLoop streamId rest (revision + 1)
      some ({ streamId, global := entry.index, revision, payload } :: batch)
    else readStreamLoop streamId rest revision

/-- `on_read_stream`. -/
def Persistent.onReadStream (p : Persistent) (streamId : String) : Option (List RecordedEvent) :=
  readStreamLoop streamId p.entries.inner 0

/-- `on_append_stream`, with the answers it sends. -/
def Node.onAppendStream (n : Node) (streamId : String) (events : List Bytes) (resp : Sender) :
    Node × List (Sender × Option ℕ) :=
  if n.volatile.status ≠ .leader then (n, [(resp, none)])
  else
    let (entries, index) :=
      appendEventsLoop streamId n.persistent.term events n.persistent.entries.lastIndex
        n.persistent.entries
    let p := { n.persistent with entries }
    if n.volatile.seeds.isEmpty then ({ n with persistent := p }, [(resp, some index)])
    else
      ({ persistent := p
         volatile := { n.volatile with inflights := n.volatile.inflights ++ [(index, resp)] } },
        [])

end Server
end RaftPlayground
