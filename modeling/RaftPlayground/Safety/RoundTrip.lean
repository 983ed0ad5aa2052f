/-
# Reading a stream back

A leader stores an event behind the id of its stream and the length of the id;
the reader takes as many bytes as the length says and compares them with the id
it looks for.  The writer counts characters and the reader takes bytes, so the
two agree on an id exactly when it has as many bytes as characters: an id with a
longer character is never read back, and an id cut off after so many bytes may
pass for another one.

`Decodable` is the condition, event by event, under which a stream reads back.  It
is exact as long as no two events have one index, that is below `2 ^ 64` events.
-/

import RaftPlayground.Server.Move
import Mathlib.Algebra.BigOperators.Group.List.Basic
import Mathlib.Data.List.Nodup

namespace RaftPlayground
namespace Safety

open Protocol Server

/-! ## One event -/

theorem getU32Le_putU32Le {n : ℕ} (h : n < 2 ^ 32) (rest : Bytes) :
    getU32Le (putU32Le n ++ rest) = some (n, rest) := by
  simp only [putU32Le, List.cons_append, List.nil_append, getU32Le, UInt8.toNat_ofNat',
    Option.some.injEq, Prod.mk.injEq, and_true]
  omega

/-- Every character has a byte. -/
theorem length_le_asBytes (s : String) : s.length ≤ (asBytes s).length := by
  have h : ∀ i ∈ s.toList.map fun c => (String.utf8EncodeChar c).length, 1 ≤ i := by
    intro i hi
    obtain ⟨c, _, rfl⟩ := List.mem_map.1 hi
    rw [String.length_utf8EncodeChar]
    exact c.utf8Size_pos
  have hsum := List.length_le_sum_of_one_le _ h
  rwa [List.length_map, String.length_toList, ← List.length_flatMap, ← asBytes_eq] at hsum

/-- The length in front of an id does not reach beyond its bytes. -/
theorem streamIdLen_le (s : String) : streamIdLen s ≤ (asBytes s).length :=
  (Nat.mod_le _ _).trans (length_le_asBytes s)

/-- The bytes of a stored id the reader compares. -/
def readId (id : String) : Bytes := (asBytes id).take (streamIdLen id)

/-- The reader splits a stored event after the length written in front. -/
theorem copyToBytes_putEvent (id : String) (event : Bytes) :
    copyToBytes (asBytes id ++ event) (streamIdLen id) =
      some (readId id, (asBytes id).drop (streamIdLen id) ++ event) := by
  have hle := streamIdLen_le id
  rw [copyToBytes, if_pos (by rw [List.length_append]; omega), List.take_append_of_le_length hle,
    List.drop_append_of_le_length hle, readId]

/-- An id is read back whole exactly when the length written is its length in bytes. -/
theorem readId_eq_asBytes {id : String} :
    readId id = asBytes id ↔ streamIdLen id = (asBytes id).length := by
  rw [readId, List.take_eq_self_iff]
  exact ⟨fun h => le_antisymm (streamIdLen_le id) h, fun h => h.ge⟩

/-! ## The events of a run -/

/-- The events an input adds, with the id of their stream. -/
def eventsOf : Input → List (String × Bytes)
  | .msg (.appendStream streamId events _) => events.map fun event => (streamId, event)
  | _ => []

/-- The events appended over the turns, the earliest first. -/
def appended (ts : List (Step Node Turn)) : List (String × Bytes) :=
  ts.reverse.flatMap fun t => eventsOf t.act.input

/-- What reading the stream `s` should return: its events in order, with the index
each was stored under and its number in the stream. -/
def readsBack (s : String) (events : List (String × Bytes)) (log : List Entry) :
    List RecordedEvent :=
  ((events.zip log).filter fun x => x.1.1 = s).zipIdx.map fun x =>
    { streamId := s, global := x.1.2.index, revision := x.2, payload := x.1.1.2 }

/-- Every event of the stream `s` is read back whole, and no other id reads as `s`. -/
def Decodable (s : String) (events : List (String × Bytes)) : Prop :=
  ∀ x ∈ events, (x.1 = s → streamIdLen x.1 = (asBytes x.1).length) ∧
    (x.1 ≠ s → readId x.1 ≠ asBytes s)

instance (s : String) (events : List (String × Bytes)) : Decidable (Decodable s events) :=
  inferInstanceAs (Decidable (∀ x ∈ events, (_ → _) ∧ (_ → _)))

/-- The log holds the events, numbered from one on. -/
structure Stores (events : List (String × Bytes)) (es : Entries) : Prop where
  payload : es.inner.map Entry.payload = events.map fun x => putEvent x.1 x.2
  index : es.inner.map Entry.index = (List.range events.length).map fun k => (k + 1) % 2 ^ 64
  lastIndex : es.lastIndex = events.length % 2 ^ 64

/-- The loop of `on_append_stream` stores the events of the call behind the others. -/
theorem Stores.appendEventsLoop {evs : List (String × Bytes)} {es : Entries} (h : Stores evs es)
    (streamId : String) (term : ℕ) (events : List Bytes) :
    Stores (evs ++ events.map fun event => (streamId, event))
      (appendEventsLoop streamId term events es.lastIndex es).1 := by
  induction events generalizing evs es with
  | nil => simpa [Server.appendEventsLoop] using h
  | cons event events ih =>
      have hadd : Stores (evs ++ [(streamId, event)])
          (es.add ⟨addU64 es.lastIndex 1, term, putEvent streamId event⟩) := by
        have hindex : addU64 es.lastIndex 1 = (evs.length + 1) % 2 ^ 64 := by
          rw [addU64, h.lastIndex, Nat.mod_add_mod]
        refine ⟨?_, ?_, ?_⟩
        · simp [Entries.add, h.payload]
        · simp [Entries.add, h.index, hindex, List.range_succ]
        · simp [Entries.add, hindex]
      have hloop := ih hadd
      rw [List.append_assoc] at hloop
      exact hloop

theorem eventsOf_eq_nil {i : Input}
    (h : ∀ streamId events resp, i ≠ .msg (.appendStream streamId events resp)) :
    eventsOf i = [] := by
  unfold eventsOf
  split
  · next streamId events resp => exact absurd rfl (h streamId events resp)
  · rfl

/-- What a turn of a node that goes on leading does to its log. -/
theorem turned_log {env : Env} {n n' : Node} {i : Input} {eff : Effects}
    (ht : n.Turned env i n' eff) (hbefore : n.volatile.status = .leader)
    (hafter : n'.volatile.status = .leader) {evs : List (String × Bytes)}
    (h : Stores evs n.persistent.entries) : Stores (evs ++ eventsOf i) n'.persistent.entries := by
  cases ht.logged with
  | kept eq ignores =>
      rw [eq, eventsOf_eq_nil (ignores hbefore), List.append_nil]
      exact h
  | stored _ follows =>
      rw [hafter] at follows
      cases follows
  | @appended streamId events _ input _ _ _ store =>
      have hevents : eventsOf i = events.map fun event => (streamId, event) := by rw [input]; rfl
      rw [store, hevents]
      exact h.appendEventsLoop streamId n.persistent.term events

/-- A node that stays leader stores exactly what is appended. -/
theorem stores_of_run {n₀ n : Node} (hlead : n₀.volatile.status = .leader)
    (hempty : n₀.persistent.entries = default) {ts : List (Step Node Turn)}
    (hrun : Run Node.next n₀ ts n) (hstays : ∀ t ∈ ts, t.after.volatile.status = .leader) :
    n.volatile.status = .leader ∧ Stores (appended ts) n.persistent.entries := by
  refine Run.invariant (fun t => t.after.volatile.status = .leader)
    (fun ts n => n.volatile.status = .leader ∧ Stores (appended ts) n.persistent.entries)
    ⟨hlead, by rw [hempty]; exact ⟨rfl, rfl, rfl⟩⟩ ?_ hrun hstays
  intro ts n t n' _ ⟨hbefore, hstores⟩ hnext hafter
  refine ⟨hafter, ?_⟩
  have hturned := turned_log (Node.handle_turned hnext) hbefore hafter hstores
  simpa [appended] using hturned

/-! ## Reading a log -/

/-- What the reader makes of an entry whose id reads as `s`. -/
def readOut (s : String) (x : ((String × Bytes) × Entry) × ℕ) : RecordedEvent where
  streamId := s
  global := x.1.2.index
  revision := x.2
  payload := (asBytes x.1.1.1).drop (streamIdLen x.1.1.1) ++ x.1.1.2

/-- The reader keeps the entries whose id reads as `s`. -/
theorem readStreamLoop_eq (s : String) (l : List ((String × Bytes) × Entry))
    (hl : ∀ x ∈ l, x.2.payload = putEvent x.1.1 x.1.2) (revision : ℕ) :
    readStreamLoop s (l.map Prod.snd) revision =
      some (((l.filter fun x => readId x.1.1 = asBytes s).zipIdx revision).map (readOut s)) := by
  induction l generalizing revision with
  | nil => rfl
  | cons x l ih =>
      rw [List.forall_mem_cons] at hl
      have hlen : streamIdLen x.1.1 < 2 ^ 32 := Nat.mod_lt _ (Nat.two_pow_pos 32)
      rw [List.map_cons, readStreamLoop, hl.1, putEvent, List.append_assoc,
        getU32Le_putU32Le hlen]
      simp only [Option.bind_eq_bind, Option.bind_some, copyToBytes_putEvent, ih hl.2]
      by_cases hid : readId x.1.1 = asBytes s
      · rw [if_pos hid, List.filter_cons_of_pos (by simpa using hid), List.zipIdx_cons,
          List.map_cons]
        rfl
      · rw [if_neg hid, List.filter_cons_of_neg (by simpa using hid)]

/-- Two tests that keep the same keys of a list without repeated keys agree on it. -/
theorem filter_key_inj {α κ : Type*} {l : List α} {key : α → κ} (hnd : (l.map key).Nodup)
    {p q : α → Prop} [DecidablePred p] [DecidablePred q]
    (h : (l.filter fun x => p x).map key = (l.filter fun x => q x).map key) :
    ∀ x ∈ l, p x ↔ q x := by
  have half : ∀ {p q : α → Prop} [DecidablePred p] [DecidablePred q],
      (l.filter fun x => p x).map key = (l.filter fun x => q x).map key → ∀ x ∈ l, p x → q x := by
    intro p q _ _ h x hx hp
    have hmem : key x ∈ (l.filter fun x => p x).map key :=
      List.mem_map_of_mem (List.mem_filter.2 ⟨hx, decide_eq_true hp⟩)
    rw [h] at hmem
    obtain ⟨y, hy, hkey⟩ := List.mem_map.1 hmem
    obtain ⟨hy, hq⟩ := List.mem_filter.1 hy
    obtain rfl := List.inj_on_of_nodup_map hnd hy hx hkey
    exact of_decide_eq_true hq
  exact fun x hx => ⟨half h x hx, half h.symm x hx⟩

/-- What a condition on the events says entry by entry. -/
theorem decodable_iff {s : String} {events : List (String × Bytes)} :
    Decodable s events ↔ ∀ x ∈ events, readId x.1 = asBytes s ↔ x.1 = s := by
  refine forall₂_congr fun x _ => ?_
  constructor
  · rintro ⟨hself, hother⟩
    refine ⟨fun hread => by_contra fun hne => hother hne hread, ?_⟩
    rintro rfl
    exact readId_eq_asBytes.2 (hself rfl)
  · intro h
    refine ⟨fun hs => ?_, fun hne hread => hne (h.1 hread)⟩
    rw [← readId_eq_asBytes, hs]
    exact hs ▸ h.2 hs

theorem map_eq_zip {α β γ : Type*} {f : β → γ} {g : α → γ} {l₁ : List α} {l₂ : List β}
    (h : l₂.map f = l₁.map g) : ∀ x ∈ l₁.zip l₂, f x.2 = g x.1 := by
  induction l₁ generalizing l₂ with
  | nil => simp
  | cons a l₁ ih =>
      cases l₂ with
      | nil => simp
      | cons b l₂ =>
          obtain ⟨hhead, htail⟩ := List.cons.inj h
          exact List.forall_mem_cons.2 ⟨hhead, ih htail⟩

section

variable {events : List (String × Bytes)} {es : Entries}

theorem Stores.length_eq (h : Stores events es) : events.length = es.inner.length := by
  have hlen := congrArg List.length h.payload
  rw [List.length_map, List.length_map] at hlen
  exact hlen.symm

/-- Below `2 ^ 64` events no two entries have one index. -/
theorem Stores.nodup (h : Stores events es) (hfew : events.length < 2 ^ 64) :
    ((events.zip es.inner).map fun x => x.2.index).Nodup := by
  have hindex : (events.zip es.inner).map (fun x => x.2.index) = es.inner.map Entry.index := by
    rw [← List.map_snd_zip h.length_eq.ge, List.map_map, List.map_snd_zip h.length_eq.ge]
    rfl
  rw [hindex, h.index]
  refine List.Nodup.map_on (fun a ha b hb heq => ?_) List.nodup_range
  rw [List.mem_range] at ha hb
  rw [Nat.mod_eq_of_lt (by omega), Nat.mod_eq_of_lt (by omega)] at heq
  omega

/-- What reading a stream returns: the entries whose id reads as `s`. -/
theorem Stores.read (h : Stores events es) (p : Persistent) (hp : p.entries = es) (s : String) :
    p.onReadStream s =
      some (((events.zip es.inner).filter fun x => readId x.1.1 = asBytes s).zipIdx.map
        (readOut s)) := by
  have hread := readStreamLoop_eq s (events.zip es.inner) (map_eq_zip h.payload) 0
  rw [List.map_snd_zip h.length_eq.ge] at hread
  rw [Persistent.onReadStream, hp, hread]

/-- A stream with decodable ids reads back. -/
theorem reads_back {s : String} (hdec : Decodable s events) :
    ((events.zip es.inner).filter fun x => readId x.1.1 = asBytes s).zipIdx.map (readOut s) =
      readsBack s events es.inner := by
  have hkeep : (events.zip es.inner).filter (fun x => readId x.1.1 = asBytes s) =
      (events.zip es.inner).filter fun x => x.1.1 = s :=
    List.filter_congr fun x hx => by
      rw [decide_eq_decide]
      exact decodable_iff.1 hdec x.1 (List.of_mem_zip hx).1
  rw [readsBack, hkeep]
  refine List.map_congr_left fun x hx => ?_
  obtain ⟨hmem, hid⟩ := List.mem_filter.1 (List.fst_mem_of_mem_zipIdx hx)
  have hwhole := (hdec x.1.1 (List.of_mem_zip hmem).1).1 (of_decide_eq_true hid)
  rw [readOut, hwhole, List.drop_length, List.nil_append]

theorem map_global {f : ((String × Bytes) × Entry) × ℕ → RecordedEvent}
    (hf : ∀ x, (f x).global = x.1.2.index) (l : List ((String × Bytes) × Entry)) (k : ℕ) :
    ((l.zipIdx k).map f).map RecordedEvent.global = l.map fun x => x.2.index := by
  induction l generalizing k with
  | nil => rfl
  | cons x l ih => rw [List.zipIdx_cons, List.map_cons, List.map_cons, hf, ih, List.map_cons]

/-- A stream that reads back has decodable ids. -/
theorem Stores.decodable (h : Stores events es) (hfew : events.length < 2 ^ 64) {s : String}
    (hread : ((events.zip es.inner).filter fun x => readId x.1.1 = asBytes s).zipIdx.map
      (readOut s) = readsBack s events es.inner) : Decodable s events := by
  have hkeys := congrArg (List.map RecordedEvent.global) hread
  rw [readsBack, map_global (fun _ => rfl), map_global (fun _ => rfl)] at hkeys
  have hagree := filter_key_inj (h.nodup hfew) hkeys
  rw [decodable_iff]
  intro x hx
  obtain ⟨e, he⟩ : ∃ e, (x, e) ∈ events.zip es.inner := by
    rw [← List.map_fst_zip h.length_eq.le] at hx
    obtain ⟨⟨y, e⟩, hy, rfl⟩ := List.mem_map.1 hx
    exact ⟨e, hy⟩
  exact hagree (x, e) he

end

/-- **The stream round trip**, for a node that is and stays leader, from an empty
log.  The log holds every event appended; a stream reads back as it was appended if
no id misleads the reader, and only if, while no two entries have one index. -/
theorem stream_round_trip {n₀ n : Node} (hlead : n₀.volatile.status = .leader)
    (hempty : n₀.persistent.entries = default) {ts : List (Step Node Turn)}
    (hrun : Run Node.next n₀ ts n) (hstays : ∀ t ∈ ts, t.after.volatile.status = .leader)
    (s : String) :
    n.persistent.entries.inner.map Entry.payload =
        (appended ts).map (fun x => putEvent x.1 x.2) ∧
      (Decodable s (appended ts) →
        n.persistent.onReadStream s =
          some (readsBack s (appended ts) n.persistent.entries.inner)) ∧
      ((appended ts).length < 2 ^ 64 →
        n.persistent.onReadStream s =
          some (readsBack s (appended ts) n.persistent.entries.inner) →
        Decodable s (appended ts)) := by
  have hstores := (stores_of_run hlead hempty hrun hstays).2
  rw [hstores.read n.persistent rfl s, Option.some.injEq]
  exact ⟨hstores.payload, reads_back, fun hfew hread => hstores.decodable hfew hread⟩

/-- The turn of a node that appends the events to a stream. -/
def appendTurn (n : Node) (streamId : String) (events : List Bytes) : Step Node Turn where
  before := n
  act :=
    { env := ⟨0, 150⟩
      input := .msg (.appendStream streamId events 0)
      effects := { answers := (n.onAppendStream streamId events 0).2 } }
  after := (n.onAppendStream streamId events 0).1

/-- A node without peers leads from its start. -/
def alone : Node := Node.start (localhost 2113) [] 0

/-- Two events appended and read at a node without peers. -/
theorem stream_round_trip_alone :
    (appendTurn alone "s" [[1], [2]]).after.persistent.onReadStream "s" =
      some [⟨"s", 1, 0, [1]⟩, ⟨"s", 2, 1, [2]⟩] := by
  have hrun : Run Node.next alone [appendTurn alone "s" [[1], [2]]]
      (appendTurn alone "s" [[1], [2]]).after := .cons .nil rfl
  have hread := (stream_round_trip rfl rfl hrun (by decide +kernel) "s").2.1 (by decide +kernel)
  exact hread.trans (by decide +kernel)

/-- The one event of the stream "é" does not read back. -/
theorem stream_lost : ∃ n₀ ts n, n₀.volatile.status = .leader ∧
    n₀.persistent.entries = default ∧ Run Node.next n₀ ts n ∧
      (∀ t ∈ ts, t.after.volatile.status = .leader) ∧ appended ts = [("é", [1])] ∧
        n.persistent.onReadStream "é" = some [] ∧
          readsBack "é" (appended ts) n.persistent.entries.inner = [⟨"é", 1, 0, [1]⟩] :=
  ⟨alone, [appendTurn alone "é" [[1]]], (appendTurn alone "é" [[1]]).after, rfl, rfl,
    .cons .nil rfl, by decide +kernel, rfl, by decide +kernel, by decide +kernel⟩

end Safety
end RaftPlayground
