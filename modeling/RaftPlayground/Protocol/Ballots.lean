/-
# Votes by term, leaders by majority

An election held once for every term, in the abstract: each voter may cast one
vote in a term, and whoever holds the votes of a majority may be recorded as the
leader of that term.  `Ballots` is the record of what happened so far.  It
carries the proof that every recorded leader has its majority, so two leaders of
one term cannot be recorded (`Ballots.eq_of_majority`): the majorities meet, and
the voter they share cast one vote.

The record only grows.  `b ≤ b'` says that everything `b` holds, `b'` holds.

Where voters rank the candidates, somebody can be elected whoever is left exactly if
the ranks can be compared (`exists_top_iff_total`).
-/

import Mathlib.Data.Finset.Card
import Mathlib.Data.Finset.Lattice.Lemmas
import Mathlib.Logic.Function.Basic
import Mathlib.Order.Basic
import Mathlib.Order.Preorder.Finite

namespace RaftPlayground
namespace Protocol

variable {τ ν : Type*}

/-- More than half of the members. -/
def Majority (members Q : Finset ν) : Prop := Q ⊆ members ∧ members.card < 2 * Q.card

/-- **Majorities meet.** -/
theorem Majority.exists_mem [DecidableEq ν] {members Q₁ Q₂ : Finset ν} (h₁ : Majority members Q₁)
    (h₂ : Majority members Q₂) : ∃ v, v ∈ Q₁ ∧ v ∈ Q₂ := by
  by_contra hne
  have hdisj : Disjoint Q₁ Q₂ :=
    Finset.disjoint_left.2 fun v hv₁ hv₂ => hne ⟨v, hv₁, hv₂⟩
  have hle : (Q₁ ∪ Q₂).card ≤ members.card :=
    Finset.card_le_card (Finset.union_subset h₁.1 h₂.1)
  rw [Finset.card_union_of_disjoint hdisj] at hle
  have h₁ := h₁.2
  have h₂ := h₂.2
  omega

/-- A member and others it counts are a majority exactly if they are more than half of the
members, rounded down. -/
theorem majority_insert_iff [DecidableEq ν] {members Q : Finset ν} {c : ν} (hc : c ∈ members)
    (hQ : Q ⊆ members.erase c) :
    Majority members (insert c Q) ↔ members.card / 2 < 1 + Q.card := by
  have hnot : c ∉ Q := fun hmem => (Finset.mem_erase.1 (hQ hmem)).1 rfl
  have hsub : insert c Q ⊆ members :=
    Finset.insert_subset hc (hQ.trans (Finset.erase_subset c members))
  rw [Majority, and_iff_right hsub, Finset.card_insert_of_notMem hnot]
  omega

/-- **Who can be elected.**  Every nonempty set of candidates has one that ranks above the
others exactly if any two candidates rank one above the other. -/
theorem exists_top_iff_total {α : Type*} [Preorder α] [DecidableEq ν] {rank : ν → α}
    {S : Finset ν} :
    (∀ Q ⊆ S, Q.Nonempty → ∃ x ∈ Q, ∀ y ∈ Q, rank y ≤ rank x) ↔
      ∀ x ∈ S, ∀ y ∈ S, rank x ≤ rank y ∨ rank y ≤ rank x := by
  constructor
  · intro htop x hx y hy
    have hpair : {x, y} ⊆ S := Finset.insert_subset hx (Finset.singleton_subset_iff.2 hy)
    obtain ⟨z, hz, hle⟩ := htop {x, y} hpair (Finset.insert_nonempty x {y})
    have hxz := hle x (Finset.mem_insert_self x {y})
    have hyz := hle y (Finset.mem_insert_of_mem (Finset.mem_singleton_self y))
    rcases Finset.mem_insert.1 hz with rfl | hz
    · exact Or.inr hyz
    · exact Or.inl (Finset.mem_singleton.1 hz ▸ hxz)
  · intro htotal Q hQ hne
    obtain ⟨x, hx, hmax⟩ := Q.exists_maximalFor rank hne
    refine ⟨x, hx, fun y hy => ?_⟩
    rcases htotal x (hQ hx) y (hQ hy) with hle | hle
    · exact hmax hy hle
    · exact hle

/-- The votes cast and the leaders elected, by term. -/
structure Ballots (τ : Type*) (members : Finset ν) where
  vote : τ → ν → Option ν
  leader : τ → Option ν
  won : ∀ t c, leader t = some c → ∃ Q, Majority members Q ∧ ∀ v ∈ Q, vote t v = some c

namespace Ballots

variable {members : Finset ν}

/-- Nothing has happened yet. -/
def empty : Ballots τ members where
  vote _ _ := none
  leader _ := none
  won _ _ h := nomatch h

instance : Preorder (Ballots τ members) where
  le b b' := (∀ t v c, b.vote t v = some c → b'.vote t v = some c) ∧
    ∀ t c, b.leader t = some c → b'.leader t = some c
  le_refl _ := ⟨fun _ _ _ h => h, fun _ _ h => h⟩
  le_trans _ _ _ h₁ h₂ :=
    ⟨fun t v c h => h₂.1 t v c (h₁.1 t v c h), fun t c h => h₂.2 t c (h₁.2 t c h)⟩

/-- A vote stays in the record. -/
theorem vote_mono {b b' : Ballots τ members} (h : b ≤ b') {t : τ} {v c : ν}
    (hv : b.vote t v = some c) : b'.vote t v = some c :=
  h.1 t v c hv

/-- A leader stays in the record. -/
theorem leader_mono {b b' : Ballots τ members} (h : b ≤ b') {t : τ} {c : ν}
    (hl : b.leader t = some c) : b'.leader t = some c :=
  h.2 t c hl

/-- **One leader a term.**  Whoever holds the votes of a majority in a term with a
recorded leader is that leader. -/
theorem eq_of_majority [DecidableEq ν] (b : Ballots τ members) {t : τ} {c d : ν} {Q : Finset ν}
    (hQ : Majority members Q) (hv : ∀ v ∈ Q, b.vote t v = some c) (hd : b.leader t = some d) :
    d = c := by
  obtain ⟨Q', hQ', hv'⟩ := b.won t d hd
  obtain ⟨v, h, h'⟩ := hQ.exists_mem hQ'
  exact Option.some.inj ((hv' v h').symm.trans (hv v h))

/-- A voter that has not voted in the term votes. -/
def cast [DecidableEq τ] [DecidableEq ν] (b : Ballots τ members) (t : τ) (v c : ν)
    (hfree : b.vote t v = none) : Ballots τ members where
  vote t' v' := if t' = t ∧ v' = v then some c else b.vote t' v'
  leader := b.leader
  won t' d hd := by
    obtain ⟨Q, hQ, hv⟩ := b.won t' d hd
    refine ⟨Q, hQ, fun v' hv' => ?_⟩
    have hne : ¬(t' = t ∧ v' = v) := by
      rintro ⟨rfl, rfl⟩
      exact Option.some_ne_none _ ((hv v' hv').symm.trans hfree)
    rw [if_neg hne]
    exact hv v' hv'

/-- The vote that was cast is in the record. -/
theorem cast_vote_self [DecidableEq τ] [DecidableEq ν] (b : Ballots τ members) {t : τ} {v c : ν}
    (hfree : b.vote t v = none) : (b.cast t v c hfree).vote t v = some c :=
  if_pos ⟨rfl, rfl⟩

/-- A vote in the record after a cast is the cast one or an older one. -/
theorem cast_vote [DecidableEq τ] [DecidableEq ν] {b : Ballots τ members} {t t' : τ} {v v' c d : ν}
    {hfree : b.vote t v = none} (h : (b.cast t v c hfree).vote t' v' = some d) :
    (t' = t ∧ v' = v ∧ d = c) ∨ b.vote t' v' = some d := by
  unfold cast at h
  dsimp only at h
  split_ifs at h with heq
  · exact Or.inl ⟨heq.1, heq.2, (Option.some.inj h).symm⟩
  · exact Or.inr h

/-- A cast only adds to the record. -/
theorem le_cast [DecidableEq τ] [DecidableEq ν] (b : Ballots τ members) {t : τ} {v c : ν}
    (hfree : b.vote t v = none) : b ≤ b.cast t v c hfree := by
  refine ⟨fun t' v' d hd => ?_, fun _ _ h => h⟩
  have hne : ¬(t' = t ∧ v' = v) := by
    rintro ⟨rfl, rfl⟩
    exact Option.some_ne_none _ (hd.symm.trans hfree)
  exact (if_neg hne).trans hd

/-- Whoever holds the votes of a majority is recorded as the leader. -/
def elect [DecidableEq τ] (b : Ballots τ members) (t : τ) (c : ν) (Q : Finset ν)
    (hQ : Majority members Q) (hv : ∀ v ∈ Q, b.vote t v = some c) : Ballots τ members where
  vote := b.vote
  leader := Function.update b.leader t (some c)
  won t' d hd := by
    by_cases ht : t' = t
    · subst ht
      rw [Function.update_self] at hd
      obtain rfl := Option.some.inj hd
      exact ⟨Q, hQ, hv⟩
    · rw [Function.update_of_ne ht] at hd
      exact b.won t' d hd

/-- The leader that was elected is in the record. -/
theorem elect_leader_self [DecidableEq τ] (b : Ballots τ members) {t : τ} {c : ν} {Q : Finset ν}
    (hQ : Majority members Q) (hv : ∀ v ∈ Q, b.vote t v = some c) :
    (b.elect t c Q hQ hv).leader t = some c :=
  Function.update_self ..

/-- A leader in the record after an election is the elected one or an older one. -/
theorem elect_leader [DecidableEq τ] {b : Ballots τ members} {t t' : τ} {c d : ν} {Q : Finset ν}
    {hQ : Majority members Q} {hv : ∀ v ∈ Q, b.vote t v = some c}
    (h : (b.elect t c Q hQ hv).leader t' = some d) : (t' = t ∧ d = c) ∨ b.leader t' = some d := by
  by_cases ht : t' = t
  · subst ht
    rw [elect_leader_self] at h
    exact Or.inl ⟨rfl, (Option.some.inj h).symm⟩
  · exact Or.inr ((Function.update_of_ne ht _ _).symm.trans h)

/-- An election only adds to the record: the term had this leader or none. -/
theorem le_elect [DecidableEq τ] [DecidableEq ν] (b : Ballots τ members) {t : τ} {c : ν}
    {Q : Finset ν} (hQ : Majority members Q) (hv : ∀ v ∈ Q, b.vote t v = some c) :
    b ≤ b.elect t c Q hQ hv := by
  refine ⟨fun _ _ _ h => h, fun t' d hd => ?_⟩
  by_cases ht : t' = t
  · subst ht
    rw [elect_leader_self, b.eq_of_majority hQ hv hd]
  · exact (Function.update_of_ne ht _ _).trans hd

/-- `b'` extends `b` by votes of `v` and elections of `v`. -/
structure ExtendsBy (v : ν) (b b' : Ballots τ members) : Prop where
  le : b ≤ b'
  vote_of_ne : ∀ t v' c, v' ≠ v → b'.vote t v' = some c → b.vote t v' = some c
  leader_of_ne : ∀ t c, c ≠ v → b'.leader t = some c → b.leader t = some c

theorem ExtendsBy.refl (v : ν) (b : Ballots τ members) : ExtendsBy v b b :=
  ⟨le_rfl, fun _ _ _ _ h => h, fun _ _ _ h => h⟩

theorem ExtendsBy.cast [DecidableEq τ] [DecidableEq ν] (b : Ballots τ members) {t : τ} {v c : ν}
    (hfree : b.vote t v = none) : ExtendsBy v b (b.cast t v c hfree) where
  le := b.le_cast hfree
  vote_of_ne _ _ _ hne h := (cast_vote h).resolve_left fun heq => hne heq.2.1
  leader_of_ne _ _ _ h := h

theorem ExtendsBy.elect [DecidableEq τ] [DecidableEq ν] (b : Ballots τ members) {t : τ} {c : ν}
    {Q : Finset ν} (hQ : Majority members Q) (hv : ∀ v ∈ Q, b.vote t v = some c) :
    ExtendsBy c b (b.elect t c Q hQ hv) where
  le := b.le_elect hQ hv
  vote_of_ne _ _ _ _ h := h
  leader_of_ne _ _ hne h := (elect_leader h).resolve_left fun heq => hne heq.2

end Ballots

end Protocol
end RaftPlayground
