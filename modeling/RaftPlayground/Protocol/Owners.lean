/-
# Holders of resources that are alive

Each of the holders holds at most one resource, `held i`, and `live` are the resources that are
alive.  They are `Owned` where every live resource has exactly one holder, and what is held is
live.  A holder that gives up what it has, so that it ends, keeps this, and so does one that takes a
new resource once it has none.

Nothing here names a program: a holder is a worker, a resource what it started.
-/

import Mathlib.Data.Set.Insert
import Mathlib.Logic.Function.Basic

namespace RaftPlayground
namespace Protocol

/-- Every live resource has a holder, no two have the same, and what is held is live. -/
structure Owned {ι κ : Type*} (held : ι → Option κ) (live : Set κ) : Prop where
  mem_iff : ∀ k, k ∈ live ↔ ∃ i, held i = some k
  inj : ∀ i j k, held i = some k → held j = some k → i = j

namespace Owned

variable {ι κ : Type*} {held : ι → Option κ} {live : Set κ}

/-- Nothing is alive, and nothing is held. -/
theorem empty : Owned (fun _ : ι => none) (∅ : Set κ) where
  mem_iff _ := iff_of_false (Set.notMem_empty _) fun ⟨_, h⟩ => Option.some_ne_none _ h.symm
  inj _ _ _ h := absurd h.symm (Option.some_ne_none _)

/-- A live resource has exactly one holder. -/
theorem existsUnique (h : Owned held live) {k : κ} (hk : k ∈ live) : ∃! i, held i = some k := by
  obtain ⟨i, hi⟩ := (h.mem_iff k).1 hk
  exact ⟨i, hi, fun j hj => h.inj j i k hj hi⟩

variable [DecidableEq ι]

/-- A holder gives up what it has, if anything, and that ends. -/
theorem release (h : Owned held live) (i : ι) :
    Owned (Function.update held i none) {k | k ∈ live ∧ held i ≠ some k} := by
  have hother : ∀ {j k}, Function.update held i none j = some k → j ≠ i ∧ held j = some k := by
    intro j k hj
    by_cases hji : j = i
    · rw [hji, Function.update_self] at hj
      cases hj
    · rw [Function.update_of_ne hji] at hj
      exact ⟨hji, hj⟩
  constructor
  case mem_iff =>
    intro k
    constructor
    · rintro ⟨hk, hne⟩
      obtain ⟨j, hj⟩ := (h.mem_iff k).1 hk
      have hji : j ≠ i := fun heq => hne (heq ▸ hj)
      exact ⟨j, (Function.update_of_ne hji _ _).trans hj⟩
    · rintro ⟨j, hj⟩
      obtain ⟨hji, hj⟩ := hother hj
      exact ⟨(h.mem_iff k).2 ⟨j, hj⟩, fun hi => hji (h.inj j i k hj hi)⟩
  case inj => exact fun j j' k hj hj' => h.inj j j' k (hother hj).2 (hother hj').2

/-- A holder that has nothing takes what was not alive. -/
theorem acquire (h : Owned held live) {i : ι} {k : κ} (hi : held i = none) (hk : k ∉ live) :
    Owned (Function.update held i (some k)) (insert k live) := by
  have hnew : ∀ {j k'}, Function.update held i (some k) j = some k' →
      (j = i ∧ k' = k) ∨ (j ≠ i ∧ held j = some k') := by
    intro j k' hj
    by_cases hji : j = i
    · rw [hji, Function.update_self] at hj
      exact Or.inl ⟨hji, (Option.some.inj hj).symm⟩
    · rw [Function.update_of_ne hji] at hj
      exact Or.inr ⟨hji, hj⟩
  have hfree : ∀ j, held j ≠ some k := fun j hj => hk ((h.mem_iff k).2 ⟨j, hj⟩)
  constructor
  case mem_iff =>
    intro k'
    rw [Set.mem_insert_iff, h.mem_iff k']
    constructor
    · rintro (rfl | ⟨j, hj⟩)
      · exact ⟨i, Function.update_self ..⟩
      · have hji : j ≠ i := fun heq => Option.some_ne_none _ (hj.symm.trans (heq ▸ hi))
        exact ⟨j, (Function.update_of_ne hji _ _).trans hj⟩
    · rintro ⟨j, hj⟩
      exact (hnew hj).imp And.right fun hj => ⟨j, hj.2⟩
  case inj =>
    intro j j' k' hj hj'
    rcases hnew hj with ⟨hji, hkk⟩ | ⟨_, hold⟩ <;> rcases hnew hj' with ⟨hji', hkk'⟩ | ⟨_, hold'⟩
    · exact hji.trans hji'.symm
    · exact absurd (hkk ▸ hold') (hfree j')
    · exact absurd (hkk' ▸ hold) (hfree j)
    · exact h.inj j j' k' hold hold'

/-- A holder gives up what it has, and takes what was not alive. -/
theorem replace (h : Owned held live) {i : ι} {k : κ} (hk : k ∉ live) :
    Owned (Function.update held i (some k)) (insert k {k | k ∈ live ∧ held i ≠ some k}) := by
  have hnext := (h.release i).acquire (Function.update_self ..) fun hmem => hk hmem.1
  rwa [Function.update_idem] at hnext

end Owned

end Protocol
end RaftPlayground
