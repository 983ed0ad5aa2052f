/-
# What a batch leaves of the log it lands in

A follower that knows the previous entry stores the batch behind what its truncation
leaves.  The truncation is made only where the log reaches beyond the previous entry and
its last term is not that of the request, and what it takes out is not what is beyond
the previous entry, but what of it has another term than that entry.  So the log that
comes out is the prefix and the batch exactly if the truncation is made and finds nothing
of the term of the previous entry behind it.

The same two conditions decide what becomes of a batch the log has already.  It is put
behind the log a second time where the truncation is not made, and where it is made, the
log comes out as it was only if the batch reaches its end.
-/

import RaftPlayground.Server.Round

namespace RaftPlayground
namespace Safety

open Server

/-- `on_append_entries`, called with the fields of a request. -/
def onEntriesReq (env : Env) (n : Node) (req : EntriesReq) : Option (Node × (ℕ × Bool)) :=
  n.onAppendEntries env req.term req.leaderId req.prevLogIndex req.prevLogTerm req.leaderCommit
    req.entries

/-- The truncation in front of the request is made, and leaves nothing behind the previous
entry. -/
def CutsClean (es : Entries) (req : EntriesReq) : Prop :=
  es.lastTerm ≠ req.term ∧
    ∀ e ∈ es.inner, req.prevLogIndex < e.index → e.term ≠ req.prevLogTerm

instance (es : Entries) (req : EntriesReq) : Decidable (CutsClean es req) :=
  inferInstanceAs (Decidable (_ ∧ ∀ e ∈ _, _ → _))

/-- A log of indices `1, 2, …, n` with the previous entry of the request, and a batch behind
that entry that differs from the log in the term of an entry. -/
structure Conflicting (es : Entries) (req : EntriesReq) : Prop where
  numbered : es.Numbered
  prev : ∃ e ∈ es.inner, e.index = req.prevLogIndex ∧ e.term = req.prevLogTerm
  batch : Consecutive req.prevLogIndex req.entries
  conflict : ∃ e ∈ req.entries, ∃ f ∈ es.inner, f.index = e.index ∧ f.term ≠ e.term

/-- The request is accepted, and the log is what it was up to the previous entry, and the
batch behind it. -/
def Resolves (env : Env) (n : Node) (req : EntriesReq) : Prop :=
  ∃ n' last, onEntriesReq env n req = some (n', req.term, true) ∧
    req.entries.getLast? = some last ∧
      n'.persistent.entries =
        { inner := n.persistent.entries.inner.filter (fun e => e.index ≤ req.prevLogIndex) ++
            req.entries
          lastIndex := last.index
          lastTerm := last.term }

/-- A log of indices `1, 2, …, n` that knows the previous entry of the request, and a batch
behind it all of which the log has. -/
structure Resent (es : Entries) (req : EntriesReq) : Prop where
  numbered : es.Numbered
  known : es.containsLog req.prevLogIndex req.prevLogTerm = true
  batch : Consecutive req.prevLogIndex req.entries
  held : ∀ e ∈ req.entries, e ∈ es.inner

/-- The request is accepted, and the log is what it was. -/
def Ignores (env : Env) (n : Node) (req : EntriesReq) : Prop :=
  ∃ n', onEntriesReq env n req = some (n', req.term, true) ∧
    n'.persistent.entries = n.persistent.entries

section

variable {n : Node} {es : Entries} {req : EntriesReq}

/-- A known previous entry, and a batch to put behind it. -/
theorem onEntriesReq_stored (env : Env) (hterm : n.persistent.term ≤ req.term)
    (hknown : n.persistent.entries.containsLog req.prevLogIndex req.prevLogTerm = true)
    {last : Entry} (hlast : req.entries.getLast? = some last) :
    ∃ n', onEntriesReq env n req = some (n', req.term, true) ∧
      n'.persistent.entries =
        { inner := (Node.truncated n.persistent.entries req.term req.prevLogIndex
            req.prevLogTerm).inner ++ req.entries
          lastIndex := last.index
          lastTerm := last.term } := by
  obtain ⟨n', ok, hreq, _, hreplied⟩ := onAppendEntries_replied env req.leaderId
    req.prevLogIndex req.prevLogTerm req.leaderCommit req.entries hterm
  cases hreplied with
  | refused unknown => exact absurd (hknown.symm.trans unknown) (by decide)
  | heartbeat _ empty =>
      rw [empty] at hlast
      simp at hlast
  | stored _ _ store =>
      rw [Entries.append, hlast] at store
      exact ⟨n', hreq, (Option.some.inj store).symm⟩

/-- The log is cut at the previous entry exactly if the truncation is made and leaves
nothing behind it. -/
theorem truncated_eq_take_iff (hnum : es.Numbered)
    (hknown : es.containsLog req.prevLogIndex req.prevLogTerm = true)
    (hbeyond : req.prevLogIndex < es.inner.length) :
    (Node.truncated es req.term req.prevLogIndex req.prevLogTerm).inner =
      es.inner.take req.prevLogIndex ↔ CutsClean es req := by
  constructor
  · intro hcut
    have hlast := hnum.lastIndex
    have hterm : es.lastTerm ≠ req.term := by
      intro heq
      rw [Node.truncated, if_neg fun hp => hp.2 heq] at hcut
      have hlen := congrArg List.length hcut
      rw [List.length_take] at hlen
      omega
    refine ⟨hterm, fun e he hlt heq => ?_⟩
    rw [Node.truncated, if_pos ⟨by omega, hterm⟩, hnum.removeUncommittedEntriesFrom hknown,
      List.append_right_eq_self, List.filter_eq_nil_iff] at hcut
    obtain ⟨k, hk⟩ := List.mem_iff_getElem?.1 he
    have hindex := hnum.consecutive.index_getElem? hk
    have hdrop : e ∈ es.inner.drop req.prevLogIndex := by
      refine List.mem_iff_getElem?.2 ⟨k - req.prevLogIndex, ?_⟩
      rw [List.getElem?_drop, Nat.add_sub_cancel' (by omega), hk]
    exact hcut e hdrop (decide_eq_true heq)
  · exact fun hclean => hnum.truncated hknown fun _ => hclean

/-- A batch the log has is a part of it. -/
theorem Resent.entries_eq (hr : Resent es req) :
    req.entries = (es.inner.drop req.prevLogIndex).take req.entries.length := by
  refine List.ext_getElem? fun j => ?_
  rw [List.getElem?_take]
  split_ifs with hj
  · rw [List.getElem?_drop]
    have hget := List.getElem?_eq_getElem hj
    have hindex := hr.batch.index_getElem? hget
    obtain ⟨k, hk⟩ := List.mem_iff_getElem?.1 (hr.held _ (List.getElem_mem hj))
    have hindex' := hr.numbered.consecutive.index_getElem? hk
    obtain rfl : k = req.prevLogIndex + j := by omega
    rw [hget, hk]
  · exact List.getElem?_eq_none (not_lt.1 hj)

/-- What is put in front of a part of the log to give the log is the prefix before it. -/
theorem Resent.append_eq_iff (hr : Resent es req) (hne : req.entries ≠ []) {l : List Entry} :
    es.inner.take req.prevLogIndex ++ l ++ req.entries = es.inner ↔
      l = [] ∧ req.prevLogIndex + req.entries.length = es.lastIndex := by
  have hprev := hr.numbered.le_of_containsLog hr.known
  have hlast := hr.numbered.lastIndex
  have hpos := List.length_pos_iff.2 hne
  have hlen := congrArg List.length hr.entries_eq
  rw [List.length_take, List.length_drop] at hlen
  constructor
  · intro hlog
    have hsum := congrArg List.length hlog
    rw [List.length_append, List.length_append, List.length_take_of_le hprev] at hsum
    -- the first entry of the batch is at the index after the previous one, and nowhere else
    have hfirst := hr.batch.index_getElem? (List.getElem?_eq_getElem hpos)
    have hplace : es.inner[req.prevLogIndex + l.length]? = req.entries[0]? := by
      conv_lhs => rw [← hlog]
      rw [List.getElem?_append_right, List.length_append, List.length_take_of_le hprev,
        Nat.sub_self]
      rw [List.length_append, List.length_take_of_le hprev]
    rw [List.getElem?_eq_getElem hpos] at hplace
    have hindex := hr.numbered.consecutive.index_getElem? hplace
    have hnil : l = [] := List.length_eq_zero_iff.1 (by omega)
    refine ⟨hnil, ?_⟩
    rw [hnil, List.length_nil] at hsum
    omega
  · rintro ⟨rfl, hend⟩
    have hall : (es.inner.drop req.prevLogIndex).length ≤ req.entries.length := by
      rw [List.length_drop]
      omega
    rw [List.append_nil, hr.entries_eq, List.take_of_length_le hall, List.take_append_drop]

/-- The batch behind what the truncation leaves gives the log back. -/
theorem Resent.truncated_append_iff (hr : Resent es req) (hne : req.entries ≠ []) :
    (Node.truncated es req.term req.prevLogIndex req.prevLogTerm).inner ++ req.entries =
      es.inner ↔
        CutsClean es req ∧ req.prevLogIndex + req.entries.length = es.lastIndex := by
  have hlast := hr.numbered.lastIndex
  have hpos := List.length_pos_iff.2 hne
  have hlen := congrArg List.length hr.entries_eq
  rw [List.length_take, List.length_drop] at hlen
  have hbeyond : req.prevLogIndex < es.inner.length := by omega
  rw [← truncated_eq_take_iff hr.numbered hr.known hbeyond]
  by_cases hterm : es.lastTerm = req.term
  · -- nothing goes, and the log is too long either way
    rw [Node.truncated, if_neg fun hp => hp.2 hterm, List.append_right_eq_self]
    refine ⟨fun hnil => absurd hnil hne, fun ⟨hcut, _⟩ => ?_⟩
    have hsame := congrArg List.length hcut
    rw [List.length_take] at hsame
    omega
  · rw [Node.truncated, if_pos ⟨by omega, hterm⟩,
      hr.numbered.removeUncommittedEntriesFrom hr.known, hr.append_eq_iff hne,
      List.append_right_eq_self]

/-- A batch that reaches the end of the log ends as the log does. -/
theorem Resent.last_eq (hr : Resent es req) {last : Entry}
    (hlast : req.entries.getLast? = some last)
    (hend : req.prevLogIndex + req.entries.length = es.lastIndex) :
    last.index = es.lastIndex ∧ last.term = es.lastTerm := by
  have hlen := hr.numbered.lastIndex
  have hpos : 0 < req.entries.length := List.length_pos_iff.2 (by rintro h; simp [h] at hlast)
  rw [List.getLast?_eq_getElem?] at hlast
  have hindex := hr.batch.index_getElem? hlast
  have hget : es.inner.getLast? = some last := by
    rw [List.getLast?_eq_getElem?, ← hlast, hr.entries_eq, List.getElem?_take_of_lt,
      List.getElem?_drop, ← hr.entries_eq]
    · congr 1
      omega
    · rw [← hr.entries_eq]
      omega
  rw [hr.numbered.lastTerm, tailTerm, hget]
  exact ⟨by omega, rfl⟩

end

/-- **When a conflict is resolved.**  A batch that differs from the log leaves the log up
to the previous entry and the batch behind it if and only if the last term of the log is
not the term of the request, and no entry beyond the previous one has its term. -/
theorem conflict_resolved_iff (env : Env) {n : Node} {req : EntriesReq}
    (hterm : n.persistent.term ≤ req.term) (hc : Conflicting n.persistent.entries req) :
    Resolves env n req ↔ CutsClean n.persistent.entries req := by
  obtain ⟨hnum, ⟨e, he, hindex, hprevTerm⟩, hbatch, ⟨x, hx, f, hf, hfx, _⟩⟩ := hc
  have hknown : n.persistent.entries.containsLog req.prevLogIndex req.prevLogTerm = true := by
    obtain ⟨k, hk⟩ := List.mem_iff_getElem?.1 he
    have hpos := hnum.consecutive.index_getElem? hk
    exact hnum.containsLog.2 (Or.inr ⟨k, e, by omega, hk, hprevTerm⟩)
  have hbeyond : req.prevLogIndex < n.persistent.entries.inner.length := by
    have hafter := (hbatch.mem hx).1
    have hbefore := (hnum.consecutive.mem hf).2
    omega
  have hlast := List.getLast?_eq_getLast_of_ne_nil (List.ne_nil_of_mem hx)
  obtain ⟨n', hreq, hentries⟩ := onEntriesReq_stored env hterm hknown hlast
  have hprefix : n.persistent.entries.inner.filter (fun e => e.index ≤ req.prevLogIndex) =
      n.persistent.entries.inner.take req.prevLogIndex := by
    refine hnum.consecutive.filter_eq_take (fun e _ hle => ?_) fun e _ hlt => ?_
    · exact decide_eq_true (by omega)
    · exact decide_eq_false (by omega)
  rw [← truncated_eq_take_iff hnum hknown hbeyond]
  constructor
  · rintro ⟨m, last, hm, hl, hres⟩
    obtain rfl : n' = m := (Prod.mk.inj (Option.some.inj (hreq.symm.trans hm))).1
    rw [hentries, hprefix, Entries.mk.injEq] at hres
    exact List.append_cancel_right hres.1
  · intro hcut
    refine ⟨n', _, hreq, hlast, ?_⟩
    rw [hentries, hprefix, hcut]

/-- A follower in the term, with the log. -/
def followerWith (term : ℕ) (got : List Entry) : Node := (Pair.elected term [] got).follower

/-- The batch of the third term replaces the entry of the second. -/
theorem conflict_resolved_iff_overwritten :
    Resolves ⟨0, 150⟩ (followerWith 2 [⟨1, 1, [1]⟩, ⟨2, 2, [2]⟩])
      ⟨localhost 2113, 3, 1, 1, 0, [⟨2, 3, [3]⟩]⟩ := by
  have hc : Conflicting (followerWith 2 [⟨1, 1, [1]⟩, ⟨2, 2, [2]⟩]).persistent.entries
      ⟨localhost 2113, 3, 1, 1, 0, [⟨2, 3, [3]⟩]⟩ :=
    { numbered := ⟨⟨rfl, rfl, trivial⟩, rfl, rfl⟩
      prev := ⟨⟨1, 1, [1]⟩, by decide⟩
      batch := ⟨rfl, trivial⟩
      conflict := ⟨⟨2, 3, [3]⟩, by decide, ⟨2, 2, [2]⟩, by decide⟩ }
  exact (conflict_resolved_iff ⟨0, 150⟩ (by decide) hc).2 (by decide)

/-- Two entries of one term, the second of which another leader replaces: it stays in front
of the entry that replaces it. -/
theorem conflict_left_standing : ∃ n req n',
    n.persistent.term ≤ req.term ∧ Conflicting n.persistent.entries req ∧
      onEntriesReq ⟨0, 150⟩ n req = some (n', req.term, true) ∧
      n'.persistent.entries.inner = [⟨1, 1, [1]⟩, ⟨2, 1, [2]⟩, ⟨2, 2, [3]⟩] ∧
      ¬ Resolves ⟨0, 150⟩ n req := by
  refine ⟨followerWith 1 [⟨1, 1, [1]⟩, ⟨2, 1, [2]⟩],
    ⟨localhost 2113, 2, 1, 1, 0, [⟨2, 2, [3]⟩]⟩, _, by decide, ?_, rfl, rfl, ?_⟩
  · exact
      { numbered := ⟨⟨rfl, rfl, trivial⟩, rfl, rfl⟩
        prev := ⟨⟨1, 1, [1]⟩, by decide⟩
        batch := ⟨rfl, trivial⟩
        conflict := ⟨⟨2, 2, [3]⟩, by decide, ⟨2, 1, [2]⟩, by decide⟩ }
  · rintro ⟨n', last, hreq, _, hentries⟩
    obtain rfl := (Prod.mk.inj (Option.some.inj hreq)).1
    have hlen : 3 = 2 := congrArg (fun es => es.inner.length) hentries
    exact absurd hlen (by decide)

/-- **When a batch the log has leaves it as it is**: if and only if there is nothing in it,
or the last term of the log is not the term of the request, no entry beyond the previous
one has its term, and the batch reaches the end of the log. -/
theorem resent_ignored_iff (env : Env) {n : Node} {req : EntriesReq}
    (hterm : n.persistent.term = req.term) (hr : Resent n.persistent.entries req) :
    Ignores env n req ↔
      req.entries = [] ∨ (CutsClean n.persistent.entries req ∧
        req.prevLogIndex + req.entries.length = n.persistent.entries.lastIndex) := by
  by_cases hne : req.entries = []
  · refine ⟨fun _ => Or.inl hne, fun _ => ?_⟩
    obtain ⟨n', ok, hreq, _, hreplied⟩ := onAppendEntries_replied env req.leaderId
      req.prevLogIndex req.prevLogTerm req.leaderCommit req.entries hterm.le
    cases hreplied with
    | refused unknown => exact absurd (hr.known.symm.trans unknown) (by decide)
    | heartbeat _ _ entries => exact ⟨n', hreq, entries⟩
    | stored _ more => exact absurd hne more
  · have hlast := List.getLast?_eq_getLast_of_ne_nil hne
    obtain ⟨n', hreq, hentries⟩ := onEntriesReq_stored env hterm.le hr.known hlast
    have hkept : Ignores env n req ↔ n'.persistent.entries = n.persistent.entries := by
      constructor
      · rintro ⟨m, hm, hsame⟩
        obtain rfl : n' = m := (Prod.mk.inj (Option.some.inj (hreq.symm.trans hm))).1
        exact hsame
      · exact fun hsame => ⟨n', hreq, hsame⟩
    rw [hkept, or_iff_right hne, hentries, ← hr.truncated_append_iff hne]
    constructor
    · intro hsame
      exact congrArg Entries.inner hsame
    · intro hinner
      obtain ⟨_, hend⟩ := (hr.truncated_append_iff hne).1 hinner
      obtain ⟨hindex, hterm'⟩ := hr.last_eq hlast hend
      rw [hinner, hindex, hterm']

/-- A leader of the third term sends the last entry once more: the node drops it and appends it
anew. -/
theorem resent_ignored_iff_lastEntry :
    Ignores ⟨0, 150⟩ (followerWith 3 [⟨1, 1, [1]⟩, ⟨2, 2, [2]⟩])
      ⟨localhost 2113, 3, 1, 1, 0, [⟨2, 2, [2]⟩]⟩ := by
  have hr : Resent (followerWith 3 [⟨1, 1, [1]⟩, ⟨2, 2, [2]⟩]).persistent.entries
      ⟨localhost 2113, 3, 1, 1, 0, [⟨2, 2, [2]⟩]⟩ :=
    { numbered := ⟨⟨rfl, rfl, trivial⟩, rfl, rfl⟩
      known := rfl
      batch := ⟨rfl, trivial⟩
      held := by decide }
  exact (resent_ignored_iff ⟨0, 150⟩ rfl hr).2 (Or.inr ⟨by decide, rfl⟩)

/-- The entry a leader sends twice is in the log of the follower twice. -/
theorem resent_repeated : ∃ n req n',
    n.persistent.term = req.term ∧ Resent n.persistent.entries req ∧
      onEntriesReq ⟨0, 150⟩ n req = some (n', req.term, true) ∧
      n'.persistent.entries.inner = [⟨1, 1, [1]⟩, ⟨2, 1, [2]⟩, ⟨2, 1, [2]⟩] ∧
      ¬ Ignores ⟨0, 150⟩ n req := by
  refine ⟨followerWith 1 [⟨1, 1, [1]⟩, ⟨2, 1, [2]⟩],
    ⟨localhost 2113, 1, 1, 1, 0, [⟨2, 1, [2]⟩]⟩, _, rfl, ?_, rfl, rfl, ?_⟩
  · exact
      { numbered := ⟨⟨rfl, rfl, trivial⟩, rfl, rfl⟩
        known := rfl
        batch := ⟨rfl, trivial⟩
        held := by decide }
  · rintro ⟨n', hreq, hentries⟩
    obtain rfl := (Prod.mk.inj (Option.some.inj hreq)).1
    have hlen : 3 = 2 := congrArg (fun es => es.inner.length) hentries
    exact absurd hlen (by decide)

end Safety
end RaftPlayground
