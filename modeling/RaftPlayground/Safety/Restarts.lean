/-
# What survives a restart

A process that is started again has an empty log, the term `0` and no vote, so the promises of
the one before it are gone, and with them whatever rests on them.  Two results do not: they
speak of where entries come from, and a fresh node has none.

No process panics, whichever of the processes of a node a message reaches
(`restarts_never_panic`).  And no process holds or sends an entry that no leader appended for a
client, or one of a term above its own (`restarts_invent_nothing`).
-/

import RaftPlayground.Safety.NoPanic
import RaftPlayground.Server.Restart

namespace RaftPlayground
namespace Safety

open Protocol Server

/-- No call that can be made next on a process of the fleet panics. -/
structure FleetPanicFree (c : Fleet) : Prop where
  tick : ∀ env p, ((c.nodes p).handle env .tick).isSome = true
  client : ∀ env p req resp,
    ((c.nodes p).handle env (.msg (ClientReq.msg resp req))).isSome = true
  deliver : ∀ env, ∀ f ∈ c.net, ∀ p, f.Reaches p →
    ((c.nodes p).handle env (.msg f.packet.msg)).isSome = true

/-- What a run says about the entries its processes hold and their requests carry. -/
structure FleetSourced (h : List (Step Fleet FleetAction)) (c : Fleet) : Prop where
  log : ∀ p, ∀ e ∈ (c.nodes p).persistent.entries.inner,
    (∃ x, ∃ t ∈ Fleet.diary h x, Creates t e) ∧ e.term ≤ (c.nodes p).persistent.term
  flight : ∀ src dst req epoch, ⟨.entriesReq src dst req, epoch⟩ ∈ c.net → ∀ e ∈ req.entries,
    (∃ x, ∃ t ∈ Fleet.diary h x, Creates t e) ∧ e.term ≤ req.term

/-- Where entries come from does not change with a restart. -/
theorem sourcing_lasting (cfg : Config) : (sourcing cfg).Lasting where
  fresh := ⟨.none, fun _ _ _ he => absurd he List.not_mem_nil⟩
  lasts _ hlog e he := (hlog e he).turn _ _

/-- The terms of a log do not depend on other processes. -/
theorem bounding_lasting (cfg : Config) : (bounding cfg).Lasting where
  fresh := ⟨.none, fun _ _ _ he => absurd he List.not_mem_nil⟩
  lasts _ hlog := hlog

section

variable {cfg : Config} {began : Proc → ℕ} {h : List (Step Fleet FleetAction)} {c : Fleet}

/-- Every entry of a fleet was stored for a client. -/
theorem sourced_of_fleetRun (hrun : FleetRun cfg began h c) :
    (∀ p, ∀ e ∈ (c.nodes p).persistent.entries.inner, Sourced (Fleet.diary h) e) ∧
      ∀ f ∈ c.net, InFlight (fun e _ => Sourced (Fleet.diary h) e) f.packet := by
  obtain ⟨_, hnodes, hnet⟩ := (sourcing_lasting cfg).run hrun fun _ _ _ _ => trivial
  exact ⟨hnodes, hnet⟩

/-- Every payload of a fleet can be read. -/
theorem readable_of_fleetRun (hrun : FleetRun cfg began h c) (p : Proc) :
    ∀ e ∈ (c.nodes p).persistent.entries.inner, Readable e.payload := by
  intro e he
  obtain ⟨_, _, _, hcreates⟩ := (sourced_of_fleetRun hrun).1 p e he
  exact hcreates.readable

/-- **No process panics**, however often the members are started again and whichever process a
request reaches. -/
theorem restarts_never_panic (hrun : FleetRun cfg began h c) : FleetPanicFree c := by
  have hreadable := readable_of_fleetRun hrun
  have hsound := hrun.sound
  constructor
  case tick => exact fun env p => rfl
  case client =>
    intro env p req resp
    cases req with
    | append | status => rfl
    | read streamId => exact handle_isSome env (hreadable p)
  case deliver =>
    intro env f hf p hreaches
    refine handle_isSome env ?_
    cases hpacket : f.packet with
    | voteReq | voteResp | entriesReq => trivial
    | entriesResp src dst batchEnd resp =>
        -- the one that answers is a member, and so a seed of the process that asked it
        have hrouted := hsound.routed f hf
        rw [hpacket] at hrouted
        have hid : p.id = dst := by rw [hreaches.1, hpacket]; rfl
        exact ((hsound.placed p).mem_ids src).2 ⟨hrouted.src_mem, hid ▸ hrouted.ne⟩

/-- **No invented entries, and bounded terms**, however often the members are started again, in
every run without an election timeout at the end of `u64`. -/
theorem restarts_invent_nothing (hrun : FleetRun cfg began h c)
    (hfits : ∀ st ∈ h, Fleet.Meets TermFits st) : FleetSourced h c := by
  obtain ⟨hlog, hflight⟩ := sourced_of_fleetRun hrun
  obtain ⟨_, hbounded, hbelow⟩ := (bounding_lasting cfg).run hrun hfits
  constructor
  case log => exact fun p e he => ⟨hlog p e he, hbounded p e he⟩
  case flight => exact fun _ _ _ _ hf e he => ⟨hflight _ hf e he, hbelow _ hf e he⟩

end

/-- The leader of the first term stores two events, one follower takes them, and the leader is
started again: the new process runs for the first term anew, while the batch of the old one
reaches the other follower. -/
def restarted : List FleetAction :=
  let A := localhost 2113
  let B := localhost 2114
  let C := localhost 2115
  [.start A, .start B, .start C, .tick ⟨0, 150⟩ ⟨A, 0⟩,
    .deliver ⟨1, 150⟩ ⟨.voteReq A C ⟨A, 1, 0, 0⟩, 0⟩ ⟨C, 0⟩,
    .deliver ⟨2, 150⟩ ⟨.voteResp C A 1 true, 0⟩ ⟨A, 0⟩,
    .client ⟨3, 150⟩ ⟨A, 0⟩ (.append "s" [[1], [2]]), .tick ⟨4, 150⟩ ⟨A, 0⟩,
    .deliver ⟨5, 150⟩ ⟨.entriesReq A B firstBatch, 0⟩ ⟨B, 0⟩, .stop ⟨A, 0⟩, .start A,
    .tick ⟨6, 150⟩ ⟨A, 1⟩, .deliver ⟨7, 150⟩ ⟨.entriesReq A C firstBatch, 0⟩ ⟨C, 0⟩]

/-- The first member is started again with an empty log, and the third has an entry. -/
theorem restarts_never_panic_restarted : ∃ h c, FleetRun .trio (fun _ => 0) h c ∧
    (c.nodes ⟨localhost 2113, 1⟩).persistent.entries.inner = [] ∧
      (c.nodes ⟨localhost 2115, 0⟩).persistent.entries.inner ≠ [] ∧ FleetPanicFree c := by
  obtain ⟨h, c, hrun, hempty, hne⟩ := FleetRun.exists_of_replay .trio restarted
    (fun _ c => (c.nodes ⟨localhost 2113, 1⟩).persistent.entries.inner = [] ∧
      (c.nodes ⟨localhost 2115, 0⟩).persistent.entries.inner ≠ []) (by decide +kernel)
  exact ⟨h, c, hrun, hempty, hne, restarts_never_panic hrun⟩

/-- The entry of the third member, after the first was started again. -/
theorem restarts_invent_nothing_restarted : ∃ h c, FleetRun .trio (fun _ => 0) h c ∧
    (c.nodes ⟨localhost 2115, 0⟩).persistent.entries.inner ≠ [] ∧ FleetSourced h c := by
  obtain ⟨h, c, hrun, hfits, hne⟩ := FleetRun.exists_of_replay .trio restarted
    (fun h c => (∀ st ∈ h, Fleet.Meets TermFits st) ∧
      (c.nodes ⟨localhost 2115, 0⟩).persistent.entries.inner ≠ []) (by decide +kernel)
  exact ⟨h, c, hrun, hne, restarts_invent_nothing hrun hfits⟩

end Safety
end RaftPlayground
