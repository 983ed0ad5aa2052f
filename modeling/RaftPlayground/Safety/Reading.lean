/-
# What the reader of a stream gets

While a node leads, its log is a store of streams: an append request adds items under the id
of its stream, a read returns the items under the id it asks for, and nothing else touches
the log (`leader_is_store`).  What holds of every such store holds of the node: a later read of
a stream continues an earlier one (`later_reads_continue`), and the events of a request are in
every later read of their stream, in one piece (`own_writes_read`).

The key of an item is what the reader makes of the payload, which is the id of the stream if
the id has one byte for each character.

A node that does not lead may lose entries and may be started again.  What it returns was still
appended by a client to the stream that is read (`reads_genuine`).
-/

import RaftPlayground.Protocol.Streams
import RaftPlayground.Safety.Restarts

namespace RaftPlayground
namespace Safety

open Protocol Server

/-! ## The log as a store -/

/-- What the reader makes of a payload: the id it compares, and the event. -/
def decode (payload : Bytes) : Option (Bytes × Bytes) := do
  let (strLen, payload) ← getU32Le payload
  copyToBytes payload strLen

/-- An entry as an item of a store.  One that cannot be read is under no id. -/
def item (e : Entry) : Item (Option Bytes) ℕ Bytes where
  key := (decode e.payload).map Prod.fst
  place := e.index
  value := ((decode e.payload).map Prod.snd).getD []

/-- The log of a node as a store. -/
def itemsOf (n : Node) : List (Item (Option Bytes) ℕ Bytes) :=
  n.persistent.entries.inner.map item

/-- An event as a reader of the store gets it. -/
def readingOf (e : RecordedEvent) : Reading ℕ Bytes := ⟨e.global, e.revision, e.payload⟩

/-- What a turn of a leader asks of the store. -/
def storeAct (t : Step Node Turn) : StoreAct (Option Bytes) ℕ Bytes :=
  match t.act.input with
  | .msg (.appendStream streamId events _) =>
    .append (some (readId streamId))
      ((newEntries streamId t.before.persistent.term events
        t.before.persistent.entries.lastIndex).map fun e => (e.index, (item e).value))
  | .msg (.readStream streamId) =>
    .read (some (asBytes streamId)) ((t.act.effects.events.getD []).map readingOf)
  | _ => .skip

/-- The reader takes the id and the event apart as the writer put them together. -/
theorem decode_putEvent (id : String) (event : Bytes) :
    decode (putEvent id event) =
      some (readId id, (asBytes id).drop (streamIdLen id) ++ event) := by
  have hlen : streamIdLen id < 2 ^ 32 := Nat.mod_lt _ (Nat.two_pow_pos 32)
  simp only [decode, putEvent, List.append_assoc, getU32Le_putU32Le hlen, Option.bind_eq_bind,
    Option.bind_some, copyToBytes_putEvent]

/-- What a leader stores for a request are items under its id. -/
theorem map_item_newEntries (streamId : String) (term : ℕ) (events : List Bytes) (index : ℕ) :
    (newEntries streamId term events index).map item =
      itemsAt (some (readId streamId))
        ((newEntries streamId term events index).map fun e => (e.index, (item e).value)) := by
  rw [itemsAt, List.map_map]
  refine List.map_congr_left fun e he => ?_
  obtain ⟨event, _, hpayload⟩ := payload_of_mem_newEntries he
  simp only [item, hpayload, decode_putEvent, Function.comp_apply, Option.map_some]

/-- The loop of the reader, where it gets through, reads the store. -/
theorem readStreamLoop_eq_readFrom {s : String} {l : List Entry} {n : ℕ}
    {batch : List RecordedEvent} (h : readStreamLoop s l n = some batch) :
    batch.map readingOf = readFrom (some (asBytes s)) (l.map item) n ∧
      ∀ e ∈ batch, e.streamId = s := by
  induction l generalizing n batch with
  | nil =>
      obtain rfl := Option.some.inj h
      exact ⟨rfl, fun _ he => absurd he List.not_mem_nil⟩
  | cons e l ih =>
      simp only [readStreamLoop, Option.bind_eq_bind, Option.bind_eq_some_iff] at h
      obtain ⟨⟨len, rest⟩, hget, ⟨id, event⟩, hcopy, h⟩ := h
      have hdecode : decode e.payload = some (id, event) := by
        rw [decode, hget]
        exact hcopy
      have hkey : (item e).key = some id := by rw [item, hdecode]; rfl
      have hvalue : (item e).value = event := by rw [item, hdecode]; rfl
      rw [List.map_cons, readFrom, hkey, hvalue]
      by_cases hid : id = asBytes s
      · rw [if_pos hid, Option.bind_eq_some_iff] at h
        obtain ⟨batch', hloop, h⟩ := h
        obtain rfl := Option.some.inj h
        obtain ⟨hread, hids⟩ := ih hloop
        rw [if_pos (congrArg some hid), List.map_cons, hread]
        exact ⟨rfl, List.forall_mem_cons.2 ⟨rfl, hids⟩⟩
      · rw [if_neg hid] at h
        rw [if_neg fun heq => hid (Option.some.inj heq)]
        exact ih h

/-! ## A leader is a store -/

section

variable {env : Env} {n n' : Node} {i : Input} {eff : Effects}

/-- A read that returns gives what the store holds under the id. -/
theorem read_of_handle {s : String} (h : n.handle env (.msg (.readStream s)) = some (n', eff)) :
    n' = n ∧ ∃ batch, eff.events = some batch ∧
      batch.map readingOf = readFrom (some (asBytes s)) (itemsOf n) 0 ∧
        ∀ e ∈ batch, e.streamId = s := by
  simp only [Node.handle, Option.bind_eq_bind, Option.bind_eq_some_iff, Option.some.injEq] at h
  obtain ⟨batch, hread, h⟩ := h
  obtain ⟨rfl, rfl⟩ := Prod.mk.inj h
  exact ⟨rfl, batch, rfl, readStreamLoop_eq_readFrom hread⟩

/-- **One turn of a leader** is a step of the store. -/
theorem storeNext_turned (hlead : n.volatile.status = .leader)
    (hleads : n'.volatile.status = .leader) (h : n.handle env i = some (n', eff)) :
    StoreNext (itemsOf n) (storeAct ⟨n, ⟨env, i, eff⟩, n'⟩) (itemsOf n') := by
  have hskip : n'.persistent.entries = n.persistent.entries →
      StoreNext (itemsOf n) .skip (itemsOf n') := fun heq => by
    show itemsOf n' = itemsOf n
    rw [itemsOf, itemsOf, heq]
  cases (Node.handle_turned h).logged with
  | kept eq ignores =>
      unfold storeAct
      split
      · next streamId events resp heq => exact absurd heq (ignores hlead streamId events resp)
      · next streamId heq =>
        obtain rfl : i = .msg (.readStream streamId) := heq
        obtain ⟨rfl, batch, hevents, hread, _⟩ := read_of_handle h
        refine ⟨rfl, ?_⟩
        show (eff.events.getD []).map readingOf = _
        rw [hevents, Option.getD_some, hread]
      · exact hskip eq
  | stored _ follows =>
      rw [hleads] at follows
      cases follows
  | @appended streamId events resp input _ _ _ store =>
      subst input
      show itemsOf n' = itemsOf n ++ _
      rw [itemsOf, store, appendEventsLoop_inner, List.map_append, map_item_newEntries]
      rfl

end

section

variable {n₀ n : Node} {ts : List (Step Node Turn)}

/-- Where a node leads after every turn, it leads before every turn. -/
theorem leads_of_run (hlead : n₀.volatile.status = .leader) (hrun : Run Node.next n₀ ts n)
    (hstays : ∀ t ∈ ts, t.after.volatile.status = .leader) :
    n.volatile.status = .leader ∧
      ∀ t ∈ ts, t.before.volatile.status = .leader ∧ t.after.volatile.status = .leader := by
  induction hrun with
  | nil => exact ⟨hlead, fun t ht => absurd ht List.not_mem_nil⟩
  | cons _ _ ih =>
      rw [List.forall_mem_cons] at hstays
      obtain ⟨hbefore, hleads⟩ := ih hstays.2
      exact ⟨hstays.1, List.forall_mem_cons.2 ⟨⟨hbefore, hstays.1⟩, hleads⟩⟩

/-- **A leader is a store**: its turns are steps of one, for as long as it leads. -/
theorem leader_is_store (hlead : n₀.volatile.status = .leader) (hrun : Run Node.next n₀ ts n)
    (hstays : ∀ t ∈ ts, t.after.volatile.status = .leader) :
    Run StoreNext (itemsOf n₀)
      (ts.map fun t => ⟨itemsOf t.before, storeAct t, itemsOf t.after⟩) (itemsOf n) :=
  hrun.map itemsOf storeAct
    (fun t => t.before.volatile.status = .leader ∧ t.after.volatile.status = .leader)
    (fun _ _ _ hnext hleads => storeNext_turned hleads.1 hleads.2 hnext)
    (leads_of_run hlead hrun hstays).2

/-- The turn reads the stream and gets the events. -/
def Reads (t : Step Node Turn) (s : String) (batch : List RecordedEvent) : Prop :=
  t.act.input = .msg (.readStream s) ∧ t.act.effects.events = some batch

instance (t : Step Node Turn) (s : String) (batch : List RecordedEvent) :
    Decidable (Reads t s batch) := inferInstanceAs (Decidable (_ ∧ _))

theorem Reads.storeAct {t : Step Node Turn} {s : String} {batch : List RecordedEvent}
    (h : Reads t s batch) :
    storeAct t = .read (some (asBytes s)) (batch.map readingOf) := by
  simp only [Safety.storeAct, h.1, h.2, Option.getD_some]

/-- What a turn of a run reads is from the stream it asks for. -/
theorem Reads.streamId_eq (hrun : Run Node.next n₀ ts n) {t : Step Node Turn} (ht : t ∈ ts)
    {s : String} {batch : List RecordedEvent} (h : Reads t s batch) :
    ∀ e ∈ batch, e.streamId = s := by
  obtain ⟨_, _, _, hnext⟩ := hrun.step_of_mem ht
  rw [Node.next, h.1] at hnext
  obtain ⟨_, batch', hevents, _, hids⟩ := read_of_handle hnext
  obtain rfl := Option.some.inj (hevents.symm.trans h.2)
  exact hids

/-- What the reader of a stream returns for what it gets of the store. -/
def recorded (s : String) (x : Reading ℕ Bytes) : RecordedEvent := ⟨s, x.place, x.revision, x.value⟩

theorem map_recorded {s : String} {b : List RecordedEvent} (hb : ∀ e ∈ b, e.streamId = s) :
    (b.map readingOf).map (recorded s) = b := by
  have hback : ∀ e ∈ b, recorded s (readingOf e) = e := by
    intro e he
    rw [← hb e he]
    rfl
  rw [List.map_map, List.map_congr_left (f := recorded s ∘ readingOf) hback, List.map_id']

/-- **A later read continues an earlier one**, while the node leads: what it returned keeps its
place, its revision and its bytes. -/
theorem later_reads_continue (hlead : n₀.volatile.status = .leader)
    (hrun : Run Node.next n₀ ts n) (hstays : ∀ t ∈ ts, t.after.volatile.status = .leader) :
    ts.Pairwise fun later earlier => ∀ s b b', Reads earlier s b → Reads later s b' →
      b <+: b' := by
  have hgrow := reads_grow (leader_is_store hlead hrun hstays)
  rw [List.pairwise_map] at hgrow
  refine hgrow.imp_of_mem fun {later earlier} hmem' hmem hgrow s b b' hread hread' => ?_
  have hprefix := (hgrow _ _ _ hread.storeAct hread'.storeAct).map (recorded s)
  rwa [map_recorded (hread.streamId_eq hrun hmem), map_recorded (hread'.streamId_eq hrun hmem')]
    at hprefix

/-- Events as a reader of the stream gets them, stored behind an index and numbered from a
revision on. -/
def asRead (s : String) : List Bytes → ℕ → ℕ → List RecordedEvent
  | [], _, _ => []
  | event :: events, global, revision =>
    ⟨s, global + 1, revision, event⟩ :: asRead s events (global + 1) (revision + 1)

/-- What a leader stores for a request reads as its events. -/
theorem map_recorded_newEntries {s : String} {term index : ℕ} {events : List Bytes}
    (hwhole : streamIdLen s = (asBytes s).length) (hfits : index + events.length < 2 ^ 64)
    (r : ℕ) :
    (readings ((newEntries s term events index).map fun e => (e.index, (item e).value)) r).map
      (recorded s) = asRead s events index r := by
  induction events generalizing index r with
  | nil => rfl
  | cons event events ih =>
      rw [List.length_cons] at hfits
      have hnext : addU64 index 1 = index + 1 := addU64_of_lt (by omega)
      have hvalue : (item ⟨index + 1, term, putEvent s event⟩).value = event := by
        simp only [item, decode_putEvent, hwhole, List.drop_length, List.nil_append,
          Option.map_some, Option.getD_some]
      have hrest := @ih (index + 1) (by omega) (r + 1)
      rw [newEntries, hnext, List.map_cons, readings, List.zipIdx_cons, List.map_cons,
        List.map_cons, hvalue]
      exact congrArg _ hrest

/-- **What was written is read**, while the node leads: the events of a request to append are
in every later read of their stream, in one piece, with their bytes, and with the indices behind
the last one at the receipt of the request. -/
theorem own_writes_read (hlead : n₀.volatile.status = .leader)
    (hrun : Run Node.next n₀ ts n) (hstays : ∀ t ∈ ts, t.after.volatile.status = .leader) :
    ts.Pairwise fun later earlier => ∀ s events resp b,
      earlier.act.input = .msg (.appendStream s events resp) → Reads later s b →
      streamIdLen s = (asBytes s).length →
      earlier.before.persistent.entries.lastIndex + events.length < 2 ^ 64 →
        ∃ r, asRead s events earlier.before.persistent.entries.lastIndex r <:+: b := by
  have hwritten := written_is_read (leader_is_store hlead hrun hstays)
  rw [List.pairwise_map] at hwritten
  refine hwritten.imp_of_mem fun {later earlier} hmem _ hwritten s events resp b hinput hread
    hwhole hfits => ?_
  have happend : storeAct earlier = .append (some (asBytes s))
      ((newEntries s earlier.before.persistent.term events
        earlier.before.persistent.entries.lastIndex).map fun e => (e.index, (item e).value)) := by
    simp only [storeAct, hinput, readId_eq_asBytes.2 hwhole]
  obtain ⟨r, hinfix⟩ := hwritten _ _ _ happend hread.storeAct
  have hblock := hinfix.map (recorded s)
  rw [map_recorded (hread.streamId_eq hrun hmem), map_recorded_newEntries hwhole hfits] at hblock
  exact ⟨r, hblock⟩

end

/-- The turn of a node that reads a stream. -/
def readTurn (n : Node) (streamId : String) : Step Node Turn where
  before := n
  act :=
    { env := ⟨0, 150⟩
      input := .msg (.readStream streamId)
      effects := { events := n.persistent.onReadStream streamId } }
  after := n

/-- A node without peers stores an event and is read, stores another and is read again; the
turns, the latest first. -/
def rereading : List (Step Node Turn) :=
  let t₁ := appendTurn alone "s" [[1]]
  let t₂ := appendTurn t₁.after "s" [[2], [3]]
  [readTurn t₂.after "s", t₂, readTurn t₁.after "s", t₁]

theorem rereading_run : ∃ n, Run Node.next alone rereading n := by
  refine ⟨_, .cons (.cons (.cons (.cons .nil rfl) ?_) rfl) ?_⟩
  · show Node.handle _ _ _ = _
    decide +kernel
  · show Node.handle _ _ _ = _
    decide +kernel

/-- A stream is read, appended to and read again. -/
theorem later_reads_continue_rereading : ∃ n, Run Node.next alone rereading n ∧
    rereading.Pairwise fun later earlier => ∀ s b b', Reads earlier s b → Reads later s b' →
      b <+: b' := by
  obtain ⟨n, hrun⟩ := rereading_run
  exact ⟨n, hrun, later_reads_continue rfl hrun (by decide +kernel)⟩

/-- The second request is read behind the first. -/
theorem own_writes_read_rereading : ∃ n r b, Run Node.next alone rereading n ∧
    (∃ t ∈ rereading, Reads t "s" b) ∧
      [⟨"s", 2, r, [2]⟩, ⟨"s", 3, r + 1, [3]⟩] <:+: b := by
  obtain ⟨n, hrun⟩ := rereading_run
  have hwritten := own_writes_read rfl hrun (by decide +kernel)
  have hread : Reads (readTurn (appendTurn (appendTurn alone "s" [[1]]).after "s" [[2], [3]]).after
      "s") "s" [⟨"s", 1, 0, [1]⟩, ⟨"s", 2, 1, [2]⟩, ⟨"s", 3, 2, [3]⟩] := ⟨rfl, by decide +kernel⟩
  obtain ⟨r, hr⟩ := (List.pairwise_cons.1 hwritten).1
    (appendTurn (appendTurn alone "s" [[1]]).after "s" [[2], [3]]) List.mem_cons_self "s"
    [[2], [3]] 0 _ rfl hread (by decide +kernel) (by decide +kernel)
  exact ⟨n, r, _, hrun, ⟨_, List.mem_cons_self, hread⟩, hr⟩

/-! ## Any process -/

theorem asBytes_injective {s s' : String} (h : asBytes s = asBytes s') : s = s' := by
  have hdata : s.toByteArray.data = s'.toByteArray.data := Array.toList_inj.1 h
  exact String.toByteArray_inj.1 (ByteArray.ext hdata)

/-- The id of a stream a client appends to has one byte for each character. -/
def PlainId : Input → Prop
  | .msg (.appendStream s _ _) => streamIdLen s = (asBytes s).length
  | _ => True

instance : DecidablePred PlainId
  | .msg (.appendStream ..) => inferInstanceAs (Decidable (_ = _))
  | .tick | .msg (.requestVote ..) | .msg (.appendEntries ..) | .msg (.voteReceived ..)
  | .msg (.appendEntriesResp ..) | .msg (.readStream ..) | .msg .status => isTrue trivial

/-- A leader stored the event for a client, under the id of the stream and at its place. -/
def WrittenBy (t : Step Node Turn) (e : RecordedEvent) : Prop :=
  t.before.volatile.status = .leader ∧
    (∃ events resp, t.act.input = .msg (.appendStream e.streamId events resp) ∧
      e.payload ∈ events) ∧
    ∃ entry ∈ t.after.persistent.entries.inner, entry.index = e.global ∧
      entry.payload = putEvent e.streamId e.payload

/-- **Reads are genuine.**  Whoever is asked, after whatever was lost and whoever was started
again: a read returns, and each of its events was appended by a client to the stream that is
read. -/
theorem reads_genuine {cfg : Config} {began : Proc → ℕ} {h : List (Step Fleet FleetAction)}
    {c : Fleet} (hrun : FleetRun cfg began h c)
    (hplain : ∀ st ∈ h, Fleet.Meets (fun _ _ i => PlainId i) st) (p : Proc) (s : String) :
    ∃ batch, (c.nodes p).persistent.onReadStream s = some batch ∧
      ∀ e ∈ batch, e.streamId = s ∧ ∃ x, ∃ t ∈ Fleet.diary h x, WrittenBy t e := by
  obtain ⟨batch, hbatch⟩ := Option.isSome_iff_exists.1
    (readStreamLoop_isSome (s := s) (readable_of_fleetRun hrun p) 0)
  refine ⟨batch, hbatch, fun e he => ?_⟩
  obtain ⟨hread, hids⟩ := readStreamLoop_eq_readFrom hbatch
  have hreading : readingOf e ∈ readFrom (some (asBytes s))
      ((c.nodes p).persistent.entries.inner.map item) 0 := hread ▸ List.mem_map_of_mem he
  obtain ⟨r, hr, hkey, hplace, hvalue⟩ := mem_readFrom hreading
  obtain ⟨entry, hentry, rfl⟩ := List.mem_map.1 hr
  obtain ⟨x, t, ht, resp, id, events, new, hinput, hleads, _, hlog, hnew, event, hevent,
    hpayload⟩ := (sourced_of_fleetRun hrun).1 p entry hentry
  -- the id the client gave is the one that is read
  have hwhole : PlainId t.act.input := Fleet.meets_diary hplain x t ht
  rw [hinput] at hwhole
  replace hwhole : streamIdLen id = (asBytes id).length := hwhole
  simp only [item, hpayload, decode_putEvent, Option.map_some, Option.some.injEq] at hkey
  obtain rfl : id = s := asBytes_injective ((readId_eq_asBytes.2 hwhole).symm.trans hkey)
  have hid : e.streamId = id := hids e he
  replace hvalue : (item entry).value = e.payload := hvalue
  have hbytes : event = e.payload := by
    simpa only [item, hpayload, decode_putEvent, hwhole, List.drop_length, List.nil_append,
      Option.map_some, Option.getD_some] using hvalue
  refine ⟨hid, x, t, ht, hleads, ⟨events, resp, hid ▸ hinput, hbytes ▸ hevent⟩, entry, ?_, ?_, ?_⟩
  · rw [hlog]
    exact List.mem_append_right _ hnew
  · exact hplace
  · rw [hid, ← hbytes]
    exact hpayload

/-- The first process of the node on port 2115 takes a batch of a leader that was started again
since. -/
theorem reads_genuine_restarted : ∃ h c, FleetRun .trio (fun _ => 0) h c ∧
    (c.nodes ⟨localhost 2115, 0⟩).persistent.onReadStream "s" =
      some [⟨"s", 1, 0, [1]⟩, ⟨"s", 2, 1, [2]⟩] ∧
    ∃ x, ∃ t ∈ Fleet.diary h x, WrittenBy t ⟨"s", 2, 1, [2]⟩ := by
  obtain ⟨h, c, hrun, hplain, hread⟩ := FleetRun.exists_of_replay .trio restarted
    (fun h c => (∀ st ∈ h, Fleet.Meets (fun _ _ i => PlainId i) st) ∧
      (c.nodes ⟨localhost 2115, 0⟩).persistent.onReadStream "s" =
        some [⟨"s", 1, 0, [1]⟩, ⟨"s", 2, 1, [2]⟩]) (by decide +kernel)
  obtain ⟨batch, hbatch, hgenuine⟩ := reads_genuine hrun hplain ⟨localhost 2115, 0⟩ "s"
  obtain rfl := Option.some.inj (hbatch.symm.trans hread)
  exact ⟨h, c, hrun, hread, (hgenuine _ (List.mem_cons_of_mem _ (List.mem_singleton_self _))).2⟩

end Safety
end RaftPlayground
