/-
# Where the back-off ends

A new leader probes the end of its own log, and moves one position down at every
refusal.  It gets to the position before the first entry after as many refusals as it
has entries, and that position is common to any two logs.  `contains_log` takes it for
known only if the log is empty, though, and no entry is stored at index 0: a follower
with entries none of which agrees in term with the leader's at its position refuses all
probes.  A further refusal leaves `next_index` at 0, which `get_previous_entry` does not
find, so the next probe is the end of the log again.

`backs_off_iff` is the exact condition under which a probe is accepted.
-/

import RaftPlayground.Server.Round

namespace RaftPlayground
namespace Safety

open Protocol Server

/-- All rounds were refused. -/
def Refused (h : List (Step Pair Exchange)) : Prop := ∀ st ∈ h, st.act.resp.success = false

/-- **The back-off finds a common position**: successive probes go down until one is
accepted, and one is after at most `n` refusals. -/
structure BacksOff (id : NodeId) (n : ℕ) (p₀ : Pair) : Prop where
  decreasing : ∀ st st' h p, RoundRun id p₀ (st' :: st :: h) p → Refused (st :: h) →
    st'.act.req.prevLogIndex < st.act.req.prevLogIndex
  accepted : ∃ st h p, RoundRun id p₀ (st :: h) p ∧ st.act.resp.success = true ∧ Refused h ∧
    h.length ≤ n
  bounded : ∀ h p, RoundRun id p₀ h p → Refused h → h.length ≤ n

/-- The follower has no entries, or one of the same term as the leader's at its
position. -/
def Shared (log got : List Entry) : Prop :=
  got = [] ∨ ∃ (k : ℕ) (e f : Entry), log[k]? = some e ∧ got[k]? = some f ∧ e.term = f.term

/-- The follower knows the position `k` of the log. -/
def Known (log : List Entry) (p : Pair) (k : ℕ) : Prop :=
  p.follower.persistent.entries.containsLog k (tailTerm 1 (log.take k)) = true

section

variable {id : NodeId} {log : List Entry} {seed : Seed} {p₀ p : Pair}
  {st : Step Pair Exchange} {h : List (Step Pair Exchange)} {k : ℕ}

theorem known_iff (hgot : Consecutive 0 p.got) (hk : k ≤ log.length) :
    Known log p k ↔
      (k = 0 ∧ p.got = []) ∨
        ∃ (j : ℕ) (e f : Entry),
          k = j + 1 ∧ log[j]? = some e ∧ p.got[j]? = some f ∧ e.term = f.term := by
  have hterm : ∀ j e, log[j]? = some e → tailTerm 1 (log.take (j + 1)) = e.term := by
    intro j e he
    rw [List.take_add_one, he, tailTerm, Option.toList_some, List.getLast?_concat]
    rfl
  rw [Known, Consecutive.containsLog hgot]
  refine or_congr_right ?_
  constructor
  · rintro ⟨j, f, rfl, hf, heq⟩
    have he := List.getElem?_eq_getElem (Nat.lt_of_succ_le hk)
    exact ⟨j, _, f, rfl, he, hf, by rw [heq, hterm j _ he]⟩
  · rintro ⟨j, e, f, rfl, he, hf, heq⟩
    exact ⟨j, f, rfl, hf, by rw [hterm j e he, heq]⟩

/-- The logs have something in common where a position is known. -/
theorem shared_iff (hgot : Consecutive 0 p.got) :
    Shared log p.got ↔ ∃ k ≤ log.length, Known log p k := by
  constructor
  · rintro (hnil | ⟨k, e, f, he, hf, heq⟩)
    · exact ⟨0, Nat.zero_le _, (known_iff hgot (Nat.zero_le _)).2 (Or.inl ⟨rfl, hnil⟩)⟩
    · have hk : k + 1 ≤ log.length := (List.getElem?_eq_some_iff.1 he).1
      exact ⟨k + 1, hk, (known_iff hgot hk).2 (Or.inr ⟨k, e, f, rfl, he, hf, heq⟩)⟩
  · rintro ⟨k, hk, hknown⟩
    rcases (known_iff hgot hk).1 hknown with ⟨_, hnil⟩ | ⟨j, e, f, _, he, hf, heq⟩
    · exact Or.inl hnil
    · exact Or.inr ⟨j, e, f, he, hf, heq⟩

/-- **One probe** at a position of the log. -/
theorem probe_next (hlog : Consecutive 0 log) (hk : k ≤ log.length)
    (hf : Facing id log { seed with nextIndex := k + 1 } p) {x : Exchange} {p' : Pair}
    (hnext : p.next id x p') :
    x.req.prevLogIndex = k ∧ (x.resp.success = true ↔ Known log p k) ∧
      (x.resp.success = false → Facing id log { seed with nextIndex := k } p' ∧
        p'.follower.persistent.entries = p.follower.persistent.entries) := by
  obtain ⟨env, env', req, resp⟩ := x
  obtain ⟨ok, p'', hround, hprobed⟩ := hf.round hlog hk rfl env env'
  have hround' : p.next id ⟨env, env', p.probe log k, _, ok⟩ p'' := hround
  obtain ⟨heq, rfl⟩ := Pair.next_unique hround' hnext rfl rfl
  obtain ⟨_, _, rfl, rfl⟩ := Exchange.mk.inj heq
  refine ⟨rfl, ?_⟩
  cases hprobed with
  | refused unknown facing entries =>
      refine ⟨⟨fun hok => absurd hok Bool.false_ne_true, fun hknown => ?_⟩,
        fun _ => ⟨facing, entries⟩⟩
      exact absurd (unknown.symm.trans hknown) Bool.false_ne_true
  | heartbeat known | stored known =>
      exact ⟨⟨fun _ => known, fun _ => rfl⟩, fun hok => absurd hok.symm Bool.false_ne_true⟩

/-- **A run of refusals** has moved the probe down once for each. -/
theorem facing_of_refused (hlog : Consecutive 0 log)
    (hf : Facing id log { seed with nextIndex := log.length + 1 } p₀)
    (hrun : RoundRun id p₀ h p) (hrefused : Refused h) (hlen : h.length ≤ log.length + 1) :
    Facing id log { seed with nextIndex := log.length + 1 - h.length } p ∧
      p.follower.persistent.entries = p₀.follower.persistent.entries := by
  induction hrun with
  | nil => exact ⟨hf, rfl⟩
  | @cons h p x p' hrun hnext ih =>
      rw [List.length_cons] at hlen ⊢
      obtain ⟨hnow, hbefore⟩ := List.forall_mem_cons.1 hrefused
      obtain ⟨hfacing, hentries⟩ := ih hbefore (by omega)
      have hindex : log.length + 1 - h.length = log.length - h.length + 1 := by omega
      have hmoved : log.length + 1 - (h.length + 1) = log.length - h.length := by omega
      rw [hindex] at hfacing
      obtain ⟨hfacing', hentries'⟩ :=
        (probe_next hlog (Nat.sub_le _ _) hfacing hnext).2.2 hnow
      rw [hmoved]
      exact ⟨hfacing', hentries'.trans hentries⟩

/-- After refusals the next probe is as many positions below the end. -/
theorem probe_of_refused (hlog : Consecutive 0 log)
    (hf : Facing id log { seed with nextIndex := log.length + 1 } p₀)
    (hrun : RoundRun id p₀ (st :: h) p) (hrefused : Refused h) (hlen : h.length ≤ log.length) :
    st.act.req.prevLogIndex = log.length - h.length ∧
      (st.act.resp.success = true ↔ Known log p₀ (log.length - h.length)) := by
  cases hrun with
  | cons hrun hnext =>
      obtain ⟨hfacing, hentries⟩ := facing_of_refused hlog hf hrun hrefused (by omega)
      have hindex : log.length + 1 - h.length = log.length - h.length + 1 := by omega
      rw [hindex] at hfacing
      obtain ⟨hprev, hknown, _⟩ := probe_next hlog (Nat.sub_le _ _) hfacing hnext
      rw [Known, hentries, ← Known] at hknown
      exact ⟨hprev, hknown⟩

/-- An accepted probe has found something common. -/
theorem shared_of_backsOff (hlog : Consecutive 0 log) (hgot : Consecutive 0 p₀.got)
    (hf : Facing id log { seed with nextIndex := log.length + 1 } p₀)
    (hback : BacksOff id log.length p₀) : Shared log p₀.got := by
  obtain ⟨st, h, p, hrun, hok, hrefused, hlen⟩ := hback.accepted
  have hknown := (probe_of_refused hlog hf hrun hrefused hlen).2.1 hok
  exact (shared_iff hgot).2 ⟨_, Nat.sub_le _ _, hknown⟩

/-- Refusals end above a known position. -/
theorem length_le_of_refused (hlog : Consecutive 0 log)
    (hf : Facing id log { seed with nextIndex := log.length + 1 } p₀) (hk : k ≤ log.length)
    (hknown : Known log p₀ k) (hrun : RoundRun id p₀ h p) (hrefused : Refused h) :
    h.length ≤ log.length - k := by
  by_contra hlong
  -- the round that probes `k`
  obtain ⟨st, h', hsuf, hlen⟩ : ∃ st h', (st :: h') <:+ h ∧ h'.length = log.length - k := by
    have hdrop := List.drop_suffix (h.length - (log.length - k + 1)) h
    have hlen : (h.drop (h.length - (log.length - k + 1))).length = log.length - k + 1 := by
      rw [List.length_drop]
      omega
    cases hcut : h.drop (h.length - (log.length - k + 1)) with
    | nil =>
        rw [hcut] at hlen
        simp at hlen
    | cons st h' =>
        rw [hcut] at hdrop hlen
        exact ⟨st, h', hdrop, Nat.succ.inj hlen⟩
  have hbefore : Refused h' := fun x hx => hrefused x (hsuf.subset (List.mem_cons_of_mem _ hx))
  have hprobe := probe_of_refused hlog hf (hrun.of_suffix hsuf) hbefore (by omega)
  have hpos : log.length - h'.length = k := by omega
  rw [hpos] at hprobe
  have hnow := hrefused st (hsuf.subset List.mem_cons_self)
  rw [hprobe.2.2 hknown] at hnow
  exact Bool.false_ne_true hnow.symm

/-- Refusals go on until a probe is accepted. -/
theorem accepted_or_refused (hlog : Consecutive 0 log)
    (hf : Facing id log { seed with nextIndex := log.length + 1 } p₀) {m : ℕ}
    (hm : m ≤ log.length + 1) :
    (∃ st h p, RoundRun id p₀ (st :: h) p ∧ st.act.resp.success = true ∧ Refused h ∧
      h.length ≤ log.length) ∨ ∃ h p, RoundRun id p₀ h p ∧ Refused h ∧ h.length = m := by
  induction m with
  | zero => exact Or.inr ⟨[], p₀, .nil, fun _ hst => absurd hst List.not_mem_nil, rfl⟩
  | succ m ih =>
      rcases ih (by omega) with hdone | ⟨h, p, hrun, hrefused, hlen⟩
      · exact Or.inl hdone
      · obtain ⟨hfacing, _⟩ := facing_of_refused hlog hf hrun hrefused (by omega)
        have hindex : log.length + 1 - h.length = log.length - h.length + 1 := by omega
        rw [hindex] at hfacing
        obtain ⟨ok, p', hround, _⟩ :=
          hfacing.round hlog (Nat.sub_le _ _) rfl ⟨0, 0⟩ ⟨0, 0⟩
        have hnext : p.next id ⟨⟨0, 0⟩, ⟨0, 0⟩, _, _, ok⟩ p' := hround
        cases ok
        · refine Or.inr ⟨_, p', hrun.cons hnext, ?_, by rw [List.length_cons, hlen]⟩
          exact List.forall_mem_cons.2 ⟨rfl, hrefused⟩
        · exact Or.inl ⟨_, h, p', hrun.cons hnext, rfl, hrefused, by omega⟩

end

/-- **When the back-off ends.**  From a leader that probes the end of its log, a probe is
accepted within `n` refusals if and only if the follower has no entries or agrees with
the leader on the term of one. -/
theorem backs_off_iff {id : NodeId} {log : List Entry} {seed : Seed} {p₀ : Pair}
    (hf : Facing id log seed p₀) (hnext : seed.nextIndex = log.length + 1)
    (hlog : log.map Entry.index = List.range' 1 log.length)
    (hgot : p₀.got.map Entry.index = List.range' 1 p₀.got.length) :
    BacksOff id log.length p₀ ↔ Shared log p₀.got := by
  have hlog' : Consecutive 0 log := consecutive_iff.2 hlog
  have hgot' : Consecutive 0 p₀.got := consecutive_iff.2 hgot
  have hf' : Facing id log { seed with nextIndex := log.length + 1 } p₀ := by
    rw [← hnext]
    exact hf
  refine ⟨shared_of_backsOff hlog' hgot' hf', fun hshared => ?_⟩
  obtain ⟨k, hk, hknown⟩ := (shared_iff hgot').1 hshared
  have hbound : ∀ h p, RoundRun id p₀ h p → Refused h → h.length ≤ log.length - k :=
    fun h p hrun hrefused => length_le_of_refused hlog' hf' hk hknown hrun hrefused
  constructor
  case decreasing =>
    intro st st' h p hrun hrefused
    cases hrun with
    | cons hrun₁ hnext₁ =>
        have hlen := hbound _ _ hrun₁ hrefused
        have hbefore : Refused h := (List.forall_mem_cons.1 hrefused).2
        rw [List.length_cons] at hlen
        have hprobe := (probe_of_refused hlog' hf' hrun₁ hbefore (by omega)).1
        have hprobe' := (probe_of_refused hlog' hf' (hrun₁.cons hnext₁) hrefused (by
          rw [List.length_cons]
          omega)).1
        rw [List.length_cons] at hprobe'
        omega
  case accepted =>
    rcases accepted_or_refused hlog' hf' le_rfl with hdone | ⟨h, p, hrun, hrefused, hlen⟩
    · exact hdone
    · have hle := hbound h p hrun hrefused
      omega
  case bounded =>
    intro h p hrun hrefused
    exact (hbound h p hrun hrefused).trans (Nat.sub_le _ _)

/-- Two logs that part behind their first entry. -/
theorem backs_off_iff_diverged : BacksOff (localhost 2114) 2
    (.elected 2 [⟨1, 1, [1]⟩, ⟨2, 2, [2]⟩] [⟨1, 1, [1]⟩, ⟨2, 1, [3]⟩]) := by
  have hf : Facing (localhost 2114) [⟨1, 1, [1]⟩, ⟨2, 2, [2]⟩] ⟨localhost 2114, 3, 0⟩
      (.elected 2 [⟨1, 1, [1]⟩, ⟨2, 2, [2]⟩] [⟨1, 1, [1]⟩, ⟨2, 1, [3]⟩]) :=
    ⟨rfl, rfl, by decide, rfl, le_rfl⟩
  exact (backs_off_iff hf rfl rfl rfl).2 (Or.inr ⟨0, ⟨1, 1, [1]⟩, ⟨1, 1, [1]⟩, rfl, rfl, rfl⟩)

/-- Two logs of one entry each, in different terms: no probe is accepted in time. -/
theorem never_backs_off :
    ¬ BacksOff (localhost 2114) 1 (.elected 2 [⟨1, 2, [2]⟩] [⟨1, 1, [1]⟩]) := by
  intro hback
  have hf : Facing (localhost 2114) [⟨1, 2, [2]⟩]
      { (⟨localhost 2114, 2, 0⟩ : Seed) with nextIndex := 1 + 1 }
      (.elected 2 [⟨1, 2, [2]⟩] [⟨1, 1, [1]⟩]) := ⟨rfl, rfl, by decide, rfl, le_rfl⟩
  rcases shared_of_backsOff (consecutive_iff.2 rfl) (consecutive_iff.2 rfl) hf hback with
    hnil | ⟨k, e, f, he, hf, hterm⟩
  · exact absurd hnil (by decide)
  · cases k with
    | zero =>
        obtain rfl := Option.some.inj he
        obtain rfl := Option.some.inj hf
        exact absurd hterm (by decide)
    | succ k => simp at he

end Safety
end RaftPlayground
