/-
# Logs with consecutive indices

The loops of `Entries` compare stored indices, so what they return is simple only
on a log whose indices are `1, 2, …, n`.  On such a log (`Entries.Numbered`),
`contains_log` looks one position up, `get_previous_entry` and
`read_entries_from` cut the log into a prefix and a batch behind it, and a follower
that truncates and appends replaces what is behind the prefix.
-/

import RaftPlayground.Server.Stream

namespace RaftPlayground
namespace Server

/-- The indices of the entries are `i + 1`, `i + 2` and so on. -/
def Consecutive : ℕ → List Entry → Prop
  | _, [] => True
  | i, e :: l => e.index = i + 1 ∧ Consecutive (i + 1) l

section

variable {i : ℕ} {l l' : List Entry}

theorem consecutive_append :
    Consecutive i (l ++ l') ↔ Consecutive i l ∧ Consecutive (i + l.length) l' := by
  induction l generalizing i with
  | nil => simp [Consecutive]
  | cons e l ih =>
      have hlen : i + 1 + l.length = i + (l.length + 1) := by omega
      rw [List.cons_append, Consecutive, Consecutive, ih, and_assoc, List.length_cons, hlen]

theorem Consecutive.take (h : Consecutive i l) (k : ℕ) : Consecutive i (l.take k) := by
  rw [← List.take_append_drop k l, consecutive_append] at h
  exact h.1

theorem Consecutive.drop (h : Consecutive i l) {k : ℕ} (hk : k ≤ l.length) :
    Consecutive (i + k) (l.drop k) := by
  rw [← List.take_append_drop k l, consecutive_append, List.length_take_of_le hk] at h
  exact h.2

/-- A batch read from a numbered log behind its first `k` entries goes on from there. -/
theorem Consecutive.batch (h : Consecutive 0 l) {k : ℕ} (hk : k ≤ l.length) (count : ℕ) :
    Consecutive k ((l.drop k).take count) := by
  have hdrop := h.drop hk
  rw [Nat.zero_add] at hdrop
  exact hdrop.take count

/-- The indices, listed. -/
theorem consecutive_iff : Consecutive i l ↔ l.map Entry.index = List.range' (i + 1) l.length := by
  induction l generalizing i with
  | nil => simp [Consecutive]
  | cons e l ih =>
      rw [Consecutive, ih, List.map_cons, List.length_cons, List.range'_succ, List.cons.injEq]

theorem Consecutive.index_getElem? (h : Consecutive i l) {k : ℕ} {e : Entry}
    (he : l[k]? = some e) : e.index = i + k + 1 := by
  have hk := congrArg (fun m => m[k]?) (consecutive_iff.1 h)
  simp only [List.getElem?_map, he, Option.map_some] at hk
  obtain ⟨hlt, _⟩ := List.getElem?_eq_some_iff.1 he
  rw [List.getElem?_range' hlt, Option.some.injEq] at hk
  omega

theorem Consecutive.mem (h : Consecutive i l) {e : Entry} (he : e ∈ l) :
    i < e.index ∧ e.index ≤ i + l.length := by
  obtain ⟨k, hk, rfl⟩ := List.mem_iff_getElem.1 he
  have hindex := h.index_getElem? (List.getElem?_eq_getElem hk)
  omega

theorem Consecutive.getLast? (h : Consecutive i l) (hne : l ≠ []) :
    l.getLast?.map Entry.index = some (i + l.length) := by
  have hlen := List.length_pos_iff.2 hne
  have hlast := List.getLast?_eq_getLast_of_ne_nil hne
  have hindex := h.index_getElem? (List.getLast?_eq_getElem? ▸ hlast)
  rw [hlast, Option.map_some, hindex, Option.some.injEq]
  omega

/-- The entries kept by a test on the index are a prefix. -/
theorem Consecutive.filter_eq_take (h : Consecutive i l) {p : Entry → Bool} {k : ℕ}
    (hkeep : ∀ e ∈ l, e.index ≤ i + k → p e = true)
    (hdrop : ∀ e ∈ l, i + k < e.index → p e = false) : l.filter p = l.take k := by
  rcases Nat.lt_or_ge l.length k with hk | hk
  · rw [List.take_of_length_le hk.le, List.filter_eq_self]
    intro e he
    have hmem := h.mem he
    exact hkeep e he (by omega)
  · conv_lhs => rw [← List.take_append_drop k l]
    rw [List.filter_append, List.filter_eq_self.2, List.filter_eq_nil_iff.2, List.append_nil]
    · intro e he
      have hmem := (h.drop hk).mem he
      rw [hdrop e (List.mem_of_mem_drop he) hmem.1]
      exact Bool.false_ne_true
    · intro e he
      have hmem := (h.take k).mem he
      rw [List.length_take_of_le hk] at hmem
      exact hkeep e (List.mem_of_mem_take he) hmem.2

/-- One entry has a given index. -/
theorem Consecutive.filter_index (h : Consecutive i l) {k : ℕ} {e : Entry}
    (he : l[k]? = some e) : (l.filter fun x => x.index = i + k + 1) = [e] := by
  obtain ⟨hk, rfl⟩ := List.getElem?_eq_some_iff.1 he
  have hsplit : l = l.take k ++ l[k] :: l.drop (k + 1) := by
    rw [List.cons_getElem_drop_succ, List.take_append_drop]
  have hhead : (l.take k).filter (fun x => x.index = i + k + 1) = [] := by
    refine List.filter_eq_nil_iff.2 fun x hx => ?_
    have hmem := (h.take k).mem hx
    rw [List.length_take_of_le hk.le] at hmem
    simp only [decide_eq_true_eq]
    omega
  have htail : (l.drop (k + 1)).filter (fun x => x.index = i + k + 1) = [] := by
    refine List.filter_eq_nil_iff.2 fun x hx => ?_
    have hmem := (h.drop hk).mem hx
    simp only [decide_eq_true_eq]
    omega
  have hself := h.index_getElem? he
  conv_lhs => rw [hsplit]
  rw [List.filter_append, hhead, List.filter_cons_of_pos (by simpa using hself), htail,
    List.nil_append]

/-! ### The loops -/

theorem Consecutive.containsLogLoop (h : Consecutive i l) (index term : ℕ) :
    Entries.containsLogLoop index term l = true ↔ ∃ e ∈ l, e.index = index ∧ e.term = term := by
  induction l generalizing i with
  | nil => simp [Entries.containsLogLoop]
  | cons e l ih =>
      rw [Entries.containsLogLoop]
      split_ifs with hfound hpast
      · exact ⟨fun _ => ⟨e, List.mem_cons_self, hfound⟩, fun _ => rfl⟩
      · -- all later indices are larger
        refine ⟨fun hf => hf.elim, ?_⟩
        rintro ⟨x, hx, hindex, hterm⟩
        rcases List.mem_cons.1 hx with rfl | hx
        · exact absurd ⟨hindex, hterm⟩ hfound
        · have hmem := h.2.mem hx
          have hhead := h.1
          omega
      · rw [ih h.2]
        constructor
        · rintro ⟨x, hx, hp⟩
          exact ⟨x, List.mem_cons_of_mem _ hx, hp⟩
        · rintro ⟨x, hx, hp⟩
          rcases List.mem_cons.1 hx with rfl | hx
          · exact absurd hp hfound
          · exact ⟨x, hx, hp⟩

/-- The term of the last entry, or the one given where there is none. -/
def tailTerm (none : ℕ) (l : List Entry) : ℕ := (l.getLast?.map Entry.term).getD none

theorem tailTerm_cons (b : ℕ) (e : Entry) : tailTerm b (e :: l) = tailTerm e.term l := by
  rw [tailTerm, tailTerm, List.getLast?_cons]
  cases l.getLast? <;> rfl

/-- The loop of `get_previous_entry` stops behind some prefix. -/
theorem Consecutive.getPreviousEntryLoop (h : Consecutive i l) (ref b : ℕ) :
    ∃ k ≤ l.length,
      Entries.getPreviousEntryLoop ref l i b = (i + k, tailTerm b (l.take k)) := by
  induction l generalizing i b with
  | nil => exact ⟨0, le_rfl, rfl⟩
  | cons e l ih =>
      rw [Entries.getPreviousEntryLoop]
      split_ifs with href
      · exact ⟨0, Nat.zero_le _, rfl⟩
      · obtain ⟨k, hk, heq⟩ := ih h.2 e.term
        refine ⟨k + 1, Nat.succ_le_succ hk, ?_⟩
        rw [h.1, heq, List.take_succ_cons, tailTerm_cons]
        congr 1
        omega

/-- At an index of the log, or the one after it, the loop of `get_previous_entry` stops
right behind the entry before. -/
theorem Consecutive.getPreviousEntryLoop_eq (h : Consecutive i l) {k : ℕ} (hk : k ≤ l.length)
    (b : ℕ) :
    Entries.getPreviousEntryLoop (i + k + 1) l i b = (i + k, tailTerm b (l.take k)) := by
  induction l generalizing i b k with
  | nil =>
      obtain rfl : k = 0 := Nat.le_zero.1 hk
      rfl
  | cons e l ih =>
      have hhead := h.1
      rw [Entries.getPreviousEntryLoop]
      cases k with
      | zero =>
          rw [if_pos (by omega)]
          rfl
      | succ k =>
          have href : i + (k + 1) + 1 = i + 1 + k + 1 := by omega
          rw [if_neg (by omega), hhead, href, ih h.2 (Nat.le_of_succ_le_succ hk),
            List.take_succ_cons, tailTerm_cons]
          congr 1
          omega

/-- Past the index, the loop of `read_entries_from` takes what fits. -/
theorem Consecutive.readEntriesLoop_take (h : Consecutive i l) {index maxCount count : ℕ}
    (hindex : index ≤ i) (hcount : count < maxCount) :
    Entries.readEntriesLoop index maxCount l count = l.take (maxCount - count) := by
  induction l generalizing i count with
  | nil => simp [Entries.readEntriesLoop]
  | cons e l ih =>
      have hhead := h.1
      rw [Entries.readEntriesLoop, if_neg (by omega)]
      split_ifs with hfull
      · rw [show maxCount - count = 1 by omega]
        rfl
      · have hleft : maxCount - count = maxCount - (count + 1) + 1 := by omega
        rw [ih h.2 (by omega) (by omega), hleft, List.take_succ_cons]

/-- The loop of `read_entries_from` cuts a batch behind the index. -/
theorem Consecutive.readEntriesLoop (h : Consecutive i l) {k maxCount : ℕ} (hmax : 0 < maxCount) :
    Entries.readEntriesLoop (i + k) maxCount l 0 = (l.drop k).take maxCount := by
  induction k generalizing i l with
  | zero => exact h.readEntriesLoop_take le_rfl hmax
  | succ k ih =>
      cases l with
      | nil => simp [Entries.readEntriesLoop]
      | cons e l =>
          have hhead := h.1
          rw [Entries.readEntriesLoop, if_pos (by omega), show i + (k + 1) = i + 1 + k by omega,
            ih h.2, List.drop_succ_cons]

end

/-! ### The log of a node -/

/-- The position `prev` is known: the log is empty, or the entry there has the term. -/
theorem Consecutive.containsLog {es : Entries} (h : Consecutive 0 es.inner) {prev prevTerm : ℕ} :
    es.containsLog prev prevTerm = true ↔
      (prev = 0 ∧ es.inner = []) ∨
        ∃ k e, prev = k + 1 ∧ es.inner[k]? = some e ∧ e.term = prevTerm := by
  have hloop : Entries.containsLogLoop prev prevTerm es.inner = true ↔
      ∃ k e, prev = k + 1 ∧ es.inner[k]? = some e ∧ e.term = prevTerm := by
    rw [h.containsLogLoop]
    constructor
    · rintro ⟨e, he, hindex, hterm⟩
      obtain ⟨k, hk⟩ := List.mem_iff_getElem?.1 he
      have hpos := h.index_getElem? hk
      exact ⟨k, e, by omega, hk, hterm⟩
    · rintro ⟨k, e, rfl, he, hterm⟩
      have hpos := h.index_getElem? he
      exact ⟨e, List.mem_of_getElem? he, by omega, hterm⟩
  rw [Entries.containsLog, ← hloop]
  by_cases hempty : prev = 0 ∧ es.inner.isEmpty = true
  · rw [if_pos hempty]
    exact ⟨fun _ => Or.inl ⟨hempty.1, List.isEmpty_iff.1 hempty.2⟩, fun _ => rfl⟩
  · rw [if_neg hempty]
    refine ⟨Or.inr, fun h' => h'.resolve_left ?_⟩
    rintro ⟨hprev, hnil⟩
    exact hempty ⟨hprev, by rw [hnil]; rfl⟩

/-- The end of the log is known. -/
theorem Consecutive.containsLog_end {es : Entries} (h : Consecutive 0 es.inner) :
    es.containsLog es.inner.length (tailTerm 1 es.inner) = true := by
  rw [h.containsLog]
  rcases List.eq_nil_or_concat' es.inner with hnil | ⟨l, e, hconcat⟩
  · exact Or.inl ⟨by rw [hnil]; rfl, hnil⟩
  · refine Or.inr ⟨l.length, e, ?_, ?_, ?_⟩
    · rw [hconcat, List.length_append, List.length_singleton]
    · rw [hconcat, List.getElem?_concat_length]
    · rw [hconcat, tailTerm, List.getLast?_concat]
      rfl

/-- The indices of the log are `1, 2, …, n`, and the cached tail is its last entry. -/
structure Entries.Numbered (es : Entries) : Prop where
  consecutive : Consecutive 0 es.inner
  lastIndex : es.lastIndex = es.inner.length
  lastTerm : es.lastTerm = tailTerm 0 es.inner

theorem Entries.numbered_default : (default : Entries).Numbered := ⟨trivial, rfl, rfl⟩

namespace Entries.Numbered

variable {es : Entries}

theorem getPreviousEntry (h : es.Numbered) (ref : ℕ) :
    ∃ k ≤ es.inner.length, es.getPreviousEntry ref = (k, tailTerm 1 (es.inner.take k)) := by
  obtain ⟨k, hk, heq⟩ := h.consecutive.getPreviousEntryLoop ref 1
  exact ⟨k, hk, by rw [Entries.getPreviousEntry, heq, Nat.zero_add]⟩

theorem readEntriesFrom (h : es.Numbered) (k : ℕ) {maxCount : ℕ} (hmax : 0 < maxCount) :
    es.readEntriesFrom k maxCount = (es.inner.drop k).take maxCount := by
  have hread : Entries.readEntriesLoop (0 + k) maxCount es.inner 0 = _ :=
    h.consecutive.readEntriesLoop hmax
  rwa [Nat.zero_add] at hread

/-- The request a leader sends: a prefix of the log, and the batch behind it. -/
theorem appendEntriesTo (h : es.Numbered) (s : Seeds) (term commit : ℕ) (seed : Seed) :
    ∃ k ≤ es.inner.length, s.appendEntriesTo es term commit seed =
      (seed.id,
        { leaderId := s.nodeId
          term
          prevLogIndex := k
          prevLogTerm := tailTerm 1 (es.inner.take k)
          leaderCommit := commit
          entries := (es.inner.drop k).take 500 }) := by
  obtain ⟨k, hk, hprev⟩ := h.getPreviousEntry seed.nextIndex
  refine ⟨k, hk, ?_⟩
  rw [Seeds.appendEntriesTo, hprev]
  dsimp only
  rw [h.readEntriesFrom k (by omega)]

/-- The position `prev` is known: the log is empty, or the entry there has the term. -/
theorem containsLog (h : es.Numbered) {prev prevTerm : ℕ} :
    es.containsLog prev prevTerm = true ↔
      (prev = 0 ∧ es.inner = []) ∨
        ∃ k e, prev = k + 1 ∧ es.inner[k]? = some e ∧ e.term = prevTerm :=
  h.consecutive.containsLog

theorem le_of_containsLog (h : es.Numbered) {prev prevTerm : ℕ}
    (hknown : es.containsLog prev prevTerm = true) : prev ≤ es.inner.length := by
  rcases h.containsLog.1 hknown with ⟨rfl, _⟩ | ⟨k, e, rfl, he, _⟩
  · omega
  · exact (List.getElem?_eq_some_iff.1 he).1

/-- **What the truncation leaves**: the log up to the previous entry, and behind it
whatever has the term of that entry. -/
theorem removeUncommittedEntriesFrom (h : es.Numbered) {prev prevTerm : ℕ}
    (hknown : es.containsLog prev prevTerm = true) :
    (es.removeUncommittedEntriesFrom prev prevTerm).inner =
      es.inner.take prev ++ (es.inner.drop prev).filter fun e => e.term = prevTerm := by
  have hprev := h.le_of_containsLog hknown
  conv_lhs =>
    rw [Entries.removeUncommittedEntriesFrom, ← List.take_append_drop prev es.inner]
  dsimp only
  rw [List.filter_append]
  congr 1
  · refine List.filter_eq_self.2 fun e he => ?_
    by_cases hbefore : e.index < prev
    · rw [if_pos hbefore]
    · -- the previous entry itself, which has the term the request says
      rw [if_neg hbefore]
      have hmem := (h.consecutive.take prev).mem he
      rw [List.length_take_of_le hprev] at hmem
      obtain ⟨j, hj⟩ := List.mem_iff_getElem?.1 (List.mem_of_mem_take he)
      have hindex := h.consecutive.index_getElem? hj
      rcases h.containsLog.1 hknown with ⟨rfl, _⟩ | ⟨k, e', rfl, he', hterm⟩
      · omega
      · obtain rfl : j = k := by omega
        obtain rfl := Option.some.inj (hj.symm.trans he')
        exact decide_eq_true ⟨by omega, hterm⟩
  · refine List.filter_congr fun e he => ?_
    have hmem := (h.consecutive.drop hprev).mem he
    rw [if_neg (by omega)]
    exact decide_eq_decide.2 ⟨fun hp => hp.2, fun hterm => ⟨by omega, hterm⟩⟩

/-- The log on_append_entries appends to is the prefix up to the previous entry, if
what is behind it goes. -/
theorem truncated (h : es.Numbered) {term prev prevTerm : ℕ}
    (hknown : es.containsLog prev prevTerm = true)
    (hclean : prev < es.lastIndex →
      es.lastTerm ≠ term ∧ ∀ e ∈ es.inner, prev < e.index → e.term ≠ prevTerm) :
    (Node.truncated es term prev prevTerm).inner = es.inner.take prev := by
  unfold Node.truncated
  by_cases hbeyond : prev < es.lastIndex
  · obtain ⟨hterm, htail⟩ := hclean hbeyond
    rw [if_pos ⟨hbeyond, hterm⟩, h.removeUncommittedEntriesFrom hknown,
      List.filter_eq_nil_iff.2, List.append_nil]
    intro e he
    have hmem := (h.consecutive.drop (h.le_of_containsLog hknown)).mem he
    rw [decide_eq_true_eq]
    exact htail e (List.mem_of_mem_drop he) (by omega)
  · rw [if_neg fun hp => hbeyond hp.1, List.take_of_length_le]
    have hlast := h.lastIndex
    omega

/-- What a stored batch leaves: the prefix, then the batch. -/
theorem stored (h : es.Numbered) {term prev prevTerm : ℕ} {batch : List Entry} {es' : Entries}
    (hknown : es.containsLog prev prevTerm = true)
    (hclean : prev < es.lastIndex →
      es.lastTerm ≠ term ∧ ∀ e ∈ es.inner, prev < e.index → e.term ≠ prevTerm)
    (hbatch : Consecutive prev batch)
    (hstore : (Node.truncated es term prev prevTerm).append batch = some es') :
    es'.inner = es.inner.take prev ++ batch ∧ es'.Numbered := by
  have hprev := h.le_of_containsLog hknown
  have hcut := h.truncated hknown hclean
  unfold Entries.append at hstore
  split at hstore
  · simp at hstore
  · next last hlast =>
    obtain rfl := (Option.some.inj hstore).symm
    have hinner : (Node.truncated es term prev prevTerm).inner ++ batch =
        es.inner.take prev ++ batch := by rw [hcut]
    refine ⟨hinner, ⟨?_, ?_, ?_⟩⟩
    · show Consecutive 0 ((Node.truncated es term prev prevTerm).inner ++ batch)
      rw [hinner, consecutive_append, List.length_take_of_le hprev, Nat.zero_add]
      exact ⟨h.consecutive.take prev, hbatch⟩
    · show last.index = ((Node.truncated es term prev prevTerm).inner ++ batch).length
      rw [hinner, List.length_append, List.length_take_of_le hprev]
      rw [List.getLast?_eq_getElem?] at hlast
      have hindex := hbatch.index_getElem? hlast
      obtain ⟨hlt, _⟩ := List.getElem?_eq_some_iff.1 hlast
      omega
    · show last.term = tailTerm 0 ((Node.truncated es term prev prevTerm).inner ++ batch)
      rw [tailTerm, List.getLast?_append_of_ne_nil _ (by rintro rfl; simp at hlast), hlast]
      rfl

/-- What a leader appends: entries of its term behind the log. -/
theorem appendEventsLoop (h : es.Numbered) {streamId : String} {term : ℕ} {events : List Bytes}
    (hfits : es.lastIndex + events.length < 2 ^ 64) :
    ∃ new, (Server.appendEventsLoop streamId term events es.lastIndex es).1.inner =
        es.inner ++ new ∧ new.length = events.length ∧ (∀ e ∈ new, e.term = term) ∧
      (Server.appendEventsLoop streamId term events es.lastIndex es).1.Numbered := by
  induction events generalizing es with
  | nil => exact ⟨[], (List.append_nil _).symm, rfl, fun e he => absurd he List.not_mem_nil, h⟩
  | cons event events ih =>
      rw [List.length_cons] at hfits
      have hindex : addU64 es.lastIndex 1 = es.lastIndex + 1 := addU64_of_lt (by omega)
      have hlast := h.lastIndex
      have hadd : (es.add ⟨addU64 es.lastIndex 1, term, putEvent streamId event⟩).Numbered := by
        refine ⟨consecutive_append.2 ⟨h.consecutive, ?_, trivial⟩, ?_, ?_⟩
        · show addU64 es.lastIndex 1 = 0 + es.inner.length + 1
          omega
        · show addU64 es.lastIndex 1 = (es.inner ++ [_]).length
          rw [List.length_append, List.length_singleton]
          omega
        · show term = tailTerm 0 (es.inner ++ [_])
          rw [tailTerm, List.getLast?_concat]
          rfl
      obtain ⟨new, hinner, hlen, hterm, hnum⟩ := ih hadd (by
        show addU64 es.lastIndex 1 + events.length < 2 ^ 64
        omega)
      refine ⟨⟨addU64 es.lastIndex 1, term, putEvent streamId event⟩ :: new, ?_, ?_, ?_, hnum⟩
      · exact hinner.trans (List.append_assoc ..)
      · rw [List.length_cons, hlen, List.length_cons]
      · exact List.forall_mem_cons.2 ⟨rfl, hterm⟩

end Entries.Numbered

end Server
end RaftPlayground
