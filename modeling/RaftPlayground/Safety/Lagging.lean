/-
# A lagging follower catches up

A follower that has a part of the leader's log refuses every probe beyond its end, and
each refusal moves the probe one position down.  The probe that meets the end is
accepted, with up to 500 entries behind it; then `next_index` points behind them, where
the follower ends now, and the next round goes on there.  Nothing is truncated on the
way, as the log never reaches beyond the probe.

A round of the two nodes is a step of `Protocol.Lag` (`Trails.next`), whose runs are
counted there.
-/

import RaftPlayground.Protocol.CatchUp
import RaftPlayground.Server.Round
import Mathlib.Data.Bool.Count

namespace RaftPlayground
namespace Safety

open Protocol Server

/-- The leader has a log of indices `1, 2, …, n`, and the follower a part of it; the
`next_index` of the leader for the follower is behind that part and not beyond the
log. -/
structure Lagging (id : NodeId) (log : List Entry) (seed : Seed) (p : Pair) : Prop where
  facing : Facing id log seed p
  indices : log.map Entry.index = List.range' 1 log.length
  fits : log.length + 1 < 2 ^ 64
  part : p.got <+: log
  lastIndex : p.follower.persistent.entries.lastIndex = p.got.length
  lastTerm : p.follower.persistent.entries.lastTerm = tailTerm 0 p.got
  above : p.got.length + 1 ≤ seed.nextIndex
  below : seed.nextIndex ≤ log.length + 1

/-- The leader knows that the follower has the whole log. -/
def Level (id : NodeId) (log : List Entry) (p : Pair) : Prop :=
  ∃ seed ∈ p.leader.volatile.seeds.inner, seed.id = id ∧ seed.matchIndex = log.length ∧
    seed.nextIndex = log.length + 1

/-- What rounds from `p₀` to `p` have come to. -/
structure CatchesUp (id : NodeId) (log : List Entry) (p₀ : Pair) (h : List (Step Pair Exchange))
    (p : Pair) : Prop where
  /-- No round takes or repeats an entry of the follower. -/
  kept : ∀ st ∈ h, st.before.got <+: st.after.got ∧ st.after.got <+: log
  /-- There is at most one refusal for every entry the follower lacks. -/
  refused : (answers h).count false ≤ log.length - p₀.got.length
  /-- An acceptance for every 500 of them is enough. -/
  caughtUp : (log.length - p₀.got.length + 499) / 500 ≤ (answers h).count true → p.got = log
  level : p.got = log → p₀.got.length < log.length → Level id log p
  /-- Another round is always possible. -/
  goesOn : ∀ env env', ∃ x p', x.leaderEnv = env ∧ x.followerEnv = env' ∧ p.next id x p'

/-- The pair is where the abstract probing is. -/
structure Trails (id : NodeId) (log : List Entry) (start : ℕ) (p : Pair) (s : Lag Entry) :
    Prop where
  numbered : p.follower.persistent.entries.Numbered
  got : p.got = s.got
  within : s.Within log
  seed : ∃ seed, Facing id log seed p ∧ seed.nextIndex = s.probe + 1 ∧
    (start < s.got.length → seed.matchIndex = s.got.length)

section

variable {id : NodeId} {log : List Entry} {start : ℕ} {p p' : Pair} {s : Lag Entry}

/-- A follower knows the end of what it has of the log, and nothing beyond. -/
theorem containsLog_iff {es : Entries} (hnum : es.Numbered) (hpart : es.inner <+: log) {k : ℕ}
    (hk : es.inner.length ≤ k) :
    es.containsLog k (tailTerm 1 (log.take k)) = true ↔ es.inner.length = k := by
  constructor
  · intro hknown
    have hle := hnum.le_of_containsLog hknown
    omega
  · rintro rfl
    rw [← List.prefix_iff_eq_take.1 hpart]
    exact hnum.consecutive.containsLog_end

/-- However a probe ends, the abstract one ends so. -/
theorem Trails.probed {got : List Entry} {probe : ℕ} {seed : Seed} {ok : Bool}
    (ht : Trails id log start p ⟨got, probe⟩) (hlog : Consecutive 0 log)
    (hfits : log.length + 1 < 2 ^ 64) (hnext : seed.nextIndex = probe + 1)
    (hmatch : start < got.length → seed.matchIndex = got.length)
    (hprobed : Probed id log seed probe p ok p') :
    ∃ s', Lag.Next log 500 ⟨got, probe⟩ ok s' ∧ Trails id log start p' s' := by
  obtain ⟨hnum, hgot, hwithin, _⟩ := ht
  have hinner : p.follower.persistent.entries.inner = got := hgot
  have hpart : got <+: log := hwithin.got
  have habove : got.length ≤ probe := hwithin.above
  have hfound := containsLog_iff hnum (hinner.symm ▸ hpart) (hinner.symm ▸ habove)
  rw [hinner] at hfound
  have hstep : ∀ s', Lag.Next log 500 ⟨got, probe⟩ ok s' →
      p'.follower.persistent.entries.Numbered → p'.got = s'.got →
      (∃ seed, Facing id log seed p' ∧ seed.nextIndex = s'.probe + 1 ∧
        (start < s'.got.length → seed.matchIndex = s'.got.length)) →
      ∃ s', Lag.Next log 500 ⟨got, probe⟩ ok s' ∧ Trails id log start p' s' :=
    fun s' hs hnum' hgot' hseed' => ⟨s', hs, hnum', hgot', (hwithin.next hs).1, hseed'⟩
  cases hprobed with
  | refused unknown facing entries =>
      have hbeyond : got.length < probe := by
        by_contra hend
        have heq : got.length = probe := le_antisymm habove (not_lt.1 hend)
        exact Bool.false_ne_true (unknown.symm.trans (hfound.2 heq))
      refine hstep _ (.refused hbeyond) (entries ▸ hnum) ?_ ⟨_, facing, ?_, hmatch⟩
      · rw [Pair.got, entries]
        exact hinner
      · show probe = probe - 1 + 1
        omega
  | heartbeat known whole facing entries =>
      have hend : got.length = probe := hfound.1 known
      have htake : Lag.take log 500 got = got := by
        rw [Lag.take_eq hpart, List.take_of_length_le (by omega)]
        exact (hpart.eq_of_length (by omega)).symm
      refine hstep _ (.accepted hend) (entries ▸ hnum) ?_ ⟨_, facing, ?_, ?_⟩
      · show p'.got = Lag.take log 500 got
        rw [htake, Pair.got, entries]
        exact hinner
      · show _ = (Lag.take log 500 got).length + 1
        rw [htake, hend, hnext]
      · show start < (Lag.take log 500 got).length → _ = (Lag.take log 500 got).length
        rw [htake]
        exact hmatch
  | @stored _ batchEnd known more end_ facing store =>
      have hend : got.length = probe := hfound.1 known
      have hbatch : Consecutive probe ((log.drop probe).take 500) := hlog.batch more.le 500
      have hlast := hnum.lastIndex
      rw [hinner] at hlast
      obtain ⟨hinner', hnum'⟩ := hnum.stored known (fun hbeyond => by omega) hbatch store
      have htake : p'.got = Lag.take log 500 got := by
        rw [Pair.got, hinner', hinner, ← hend, List.take_length, Lag.take]
      have hlen : (Lag.take log 500 got).length = batchEnd := by
        rw [Lag.take_eq hpart, List.length_take, hend, end_, min_comm]
      refine hstep _ (.accepted hend) hnum' htake ⟨_, facing, ?_, ?_⟩
      · show addU64 batchEnd 1 = (Lag.take log 500 got).length + 1
        rw [hlen, addU64_of_lt (by omega)]
      · show _ → batchEnd = (Lag.take log 500 got).length
        exact fun _ => hlen.symm

/-- **A round is a step of the abstract probing.** -/
theorem Trails.next (ht : Trails id log start p s) (hlog : Consecutive 0 log)
    (hfits : log.length + 1 < 2 ^ 64) (env env' : Env) :
    ∃ x p', x.leaderEnv = env ∧ x.followerEnv = env' ∧ p.next id x p' ∧
      ∃ s', Lag.Next log 500 s x.resp.success s' ∧ Trails id log start p' s' := by
  obtain ⟨got, probe⟩ := s
  obtain ⟨seed, hf, hnext, hmatch⟩ := ht.seed
  obtain ⟨ok, p', hround, hprobed⟩ := hf.round hlog ht.within.below hnext env env'
  exact ⟨⟨env, env', _, _⟩, p', rfl, rfl, hround, ht.probed hlog hfits hnext hmatch hprobed⟩

/-- Rounds from a lagging follower, as a run of the abstract probing. -/
theorem trails_of_run {seed : Seed} {p₀ : Pair} {h : List (Step Pair Exchange)}
    (hlag : Lagging id log seed p₀) (hrun : RoundRun id p₀ h p) :
    ∃ s, Trails id log p₀.got.length p s ∧
      Lag.Reached log 500 ⟨p₀.got, seed.nextIndex - 1⟩ (answers h) s := by
  have hlog : Consecutive 0 log := consecutive_iff.2 hlag.indices
  have habove := hlag.above
  have hbelow := hlag.below
  have hpart := hlag.part
  have hwithin : (⟨p₀.got, seed.nextIndex - 1⟩ : Lag Entry).Within log := by
    refine ⟨hpart, ?_, ?_⟩
    · show p₀.got.length ≤ seed.nextIndex - 1
      omega
    · show seed.nextIndex - 1 ≤ log.length
      omega
  have hnum : p₀.follower.persistent.entries.Numbered := by
    refine ⟨?_, hlag.lastIndex, hlag.lastTerm⟩
    have htake := hlog.take p₀.got.length
    rwa [← List.prefix_iff_eq_take.1 hpart] at htake
  have hstart : Trails id log p₀.got.length p₀ ⟨p₀.got, seed.nextIndex - 1⟩ := by
    refine ⟨hnum, rfl, hwithin, seed, hlag.facing, ?_, fun hlt => absurd hlt (Nat.lt_irrefl _)⟩
    show seed.nextIndex = seed.nextIndex - 1 + 1
    omega
  obtain ⟨h', s, hrun', htrails, hlabels⟩ := Run.simulation (Trails id log p₀.got.length)
    (fun x : Exchange => x.resp.success) hstart (fun p x p' s ht hnext => by
      obtain ⟨x', p'', henv, henv', hnext', s', hs', ht'⟩ :=
        ht.next hlog hlag.fits x.leaderEnv x.followerEnv
      obtain ⟨rfl, rfl⟩ := Pair.next_unique hnext hnext' henv henv'
      exact ⟨s', hs', ht'⟩) hrun
  refine ⟨s, htrails, ?_⟩
  have hreached := Lag.reached_of_run hwithin hrun'
  rwa [hlabels] at hreached

/-- **What rounds from a lagging follower come to.** -/
theorem catchesUp_of_run {seed : Seed} {p₀ : Pair} {h : List (Step Pair Exchange)}
    (hlag : Lagging id log seed p₀) (hrun : RoundRun id p₀ h p) : CatchesUp id log p₀ h p := by
  have hlog : Consecutive 0 log := consecutive_iff.2 hlag.indices
  have hbelow := hlag.below
  obtain ⟨s, htrails, hreached⟩ := trails_of_run hlag hrun
  constructor
  case kept =>
    intro st hst
    obtain ⟨h', hrun', _, hnext⟩ := hrun.step_of_mem hst
    obtain ⟨s', htrails', _⟩ := trails_of_run hlag hrun'
    obtain ⟨x, p', henv, henv', hnext', s'', hs'', htrails''⟩ :=
      htrails'.next hlog hlag.fits st.act.leaderEnv st.act.followerEnv
    obtain ⟨_, hp'⟩ := Pair.next_unique hnext hnext' henv henv'
    subst hp'
    rw [htrails'.got, htrails''.got]
    exact ⟨(htrails'.within.next hs'').2, htrails''.within.got⟩
  case refused =>
    have hrefused : (answers h).count false + p₀.got.length ≤ seed.nextIndex - 1 :=
      hreached.refused
    omega
  case caughtUp =>
    intro henough
    refine htrails.got.trans (hreached.got_eq ?_)
    show log.length ≤ p₀.got.length + 500 * (answers h).count true
    omega
  case level =>
    intro hgot hlt
    obtain ⟨seed', hf, hnext, hmatch⟩ := htrails.seed
    have habove := htrails.within.above
    have hend := htrails.within.below
    rw [← htrails.got, hgot] at hmatch habove
    exact ⟨seed', hf.mem, hf.id_eq, hmatch hlt, by omega⟩
  case goesOn =>
    intro env env'
    obtain ⟨x, p', henv, henv', hnext, _⟩ := htrails.next hlog hlag.fits env env'
    exact ⟨x, p', henv, henv', hnext⟩

end

/-- **A lagging follower catches up.**  All rounds from a lagging follower keep what it
has, and within a refusal for every entry it lacks and an acceptance for every 500 of
them it has the log of the leader. -/
theorem lagging_follower_catches_up {id : NodeId} {log : List Entry} {seed : Seed} {p₀ : Pair}
    (hlag : Lagging id log seed p₀) :
    (∀ h p, RoundRun id p₀ h p → CatchesUp id log p₀ h p) ∧
      ∃ h p, RoundRun id p₀ h p ∧ (answers h).count false ≤ log.length - p₀.got.length ∧
        (answers h).count true ≤ (log.length - p₀.got.length + 499) / 500 + 1 ∧ p.got = log ∧
          (p₀.got.length < log.length → Level id log p) := by
  refine ⟨fun h p hrun => catchesUp_of_run hlag hrun, ?_⟩
  by_cases hwhole : p₀.got = log
  · refine ⟨[], p₀, .nil, Nat.zero_le _, Nat.zero_le _, hwhole, fun hlt => ?_⟩
    rw [hwhole] at hlt
    exact absurd hlt (Nat.lt_irrefl _)
  · -- the first round after which the log is there, in a run that is long enough
    have hlt : p₀.got.length < log.length := by
      by_contra hall
      exact hwhole (hlag.part.eq_of_length_le (not_lt.1 hall))
    have hlong : ∃ h p, RoundRun id p₀ h p ∧
        h.length = log.length - p₀.got.length + (log.length - p₀.got.length + 499) / 500 :=
      Run.exists_of_length (fun h p hrun => by
        obtain ⟨x, p', _, _, hnext⟩ := (catchesUp_of_run hlag hrun).goesOn ⟨0, 0⟩ ⟨0, 0⟩
        exact ⟨x, p', hnext⟩) _
    obtain ⟨h, p, hrun, hlen⟩ := hlong
    have hgot : p.got = log := by
      have hall := catchesUp_of_run hlag hrun
      have hrefused := hall.refused
      have hcount := List.count_true_add_count_false (answers h)
      rw [answers, List.length_map, ← answers, hlen] at hcount
      exact hall.caughtUp (by omega)
    have hreached : ∃ st ∈ h, st.after.got = log := by
      rcases Run.visited hrun with hstart | ⟨st, hst, hafter⟩
      · exact absurd (hstart ▸ hgot) hwhole
      · exact ⟨st, hst, hafter ▸ hgot⟩
    obtain ⟨st, h', hrun', hdone, hbefore⟩ := Run.exists_first hrun hreached
    have hfew : (answers h').count true < (log.length - p₀.got.length + 499) / 500 := by
      by_contra henough
      cases hrun' with
      | cons hrun₁ =>
          have hgot₁ := (catchesUp_of_run hlag hrun₁).caughtUp (not_lt.1 henough)
          rcases Run.visited hrun₁ with hstart | ⟨st', hst', hafter⟩
          · exact hwhole (hstart ▸ hgot₁)
          · exact hbefore st' hst' (hafter ▸ hgot₁)
    have hone : (answers (st :: h')).count true ≤ (answers h').count true + 1 := by
      rw [answers, List.map_cons, ← answers, List.count_cons]
      split_ifs <;> omega
    have hall := catchesUp_of_run hlag hrun'
    exact ⟨_, _, hrun', hall.refused, by omega, hdone, hall.level hdone⟩

/-- The follower lacks the last of two entries. -/
theorem lagging_follower_catches_up_by_one : ∃ h p,
    RoundRun (localhost 2114) (.elected 1 [⟨1, 1, [1]⟩, ⟨2, 1, [2]⟩] [⟨1, 1, [1]⟩]) h p ∧
      (answers h).count false ≤ 1 ∧ p.got = [⟨1, 1, [1]⟩, ⟨2, 1, [2]⟩] := by
  have hlag : Lagging (localhost 2114) [⟨1, 1, [1]⟩, ⟨2, 1, [2]⟩] ⟨localhost 2114, 3, 0⟩
      (.elected 1 [⟨1, 1, [1]⟩, ⟨2, 1, [2]⟩] [⟨1, 1, [1]⟩]) :=
    { facing := ⟨rfl, rfl, by decide, rfl, le_rfl⟩
      indices := rfl
      fits := by decide
      part := ⟨[⟨2, 1, [2]⟩], rfl⟩
      lastIndex := rfl
      lastTerm := rfl
      above := by decide
      below := by decide }
  obtain ⟨_, h, p, hrun, hrefused, _, hgot, _⟩ := lagging_follower_catches_up hlag
  exact ⟨h, p, hrun, hrefused, hgot⟩

end Safety
end RaftPlayground
