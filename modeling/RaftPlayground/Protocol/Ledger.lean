/-
# The logs of leaders, by term

Replication by leaders, in the abstract.  Entries carry a term.  A `Ledger` holds,
for every term, the log of the leader of that term: empty before it is elected,
the log it starts with then, and growing while it leads.

A log is coherent with a ledger if every entry closes a prefix of the log of its
term.  Coherent logs match: entries of one term at one position have equal
prefixes (`Coherent.take_eq`).  A ledger carries the proof that its own logs are
coherent, and only grows.

The second half is about what members hold.  `held p t` counts entries of the log
of term `t` that `p` was seen to have.  If every leader started with what it held,
unless an earlier leader contradicts it (`Ledger.Inherits`), then what all
members hold is in the log of every later leader (`Ledger.prefix_of_held`), by
induction on the term.
-/

import Mathlib.Data.List.Infix
import Mathlib.Logic.Function.Basic
import Mathlib.Order.Interval.Set.Defs
import Mathlib.Order.WellFounded

namespace RaftPlayground
namespace Protocol

variable {τ ν α : Type*}

/-! ### Lists that contradict each other -/

/-- The lists differ at a position both have. -/
def Conflict (l l' : List α) : Prop := ∃ (k : ℕ) (a b : α), l[k]? = some a ∧ l'[k]? = some b ∧ a ≠ b

/-- A longer log has the entry at the same place. -/
theorem getElem?_of_isPrefix {l l' : List α} (h : l <+: l') {k : ℕ} {a : α} (ha : l[k]? = some a) :
    l'[k]? = some a := by
  obtain ⟨s, rfl⟩ := h
  rw [List.getElem?_append_left (List.getElem?_eq_some_iff.1 ha).1, ha]

/-- A conflict with a log is one with every longer log. -/
theorem Conflict.mono {l l₁ l₂ : List α} (h : Conflict l l₁) (hle : l₁ <+: l₂) : Conflict l l₂ := by
  obtain ⟨k, a, b, ha, hb, hne⟩ := h
  exact ⟨k, a, b, ha, getElem?_of_isPrefix hle hb, hne⟩

/-- The first of two logs in conflict has an entry. -/
theorem Conflict.ne_nil_left {l l' : List α} (h : Conflict l l') : l ≠ [] := by
  rintro rfl
  obtain ⟨_, _, _, hnone, _⟩ := h
  simp at hnone

/-- The second of two logs in conflict has an entry. -/
theorem Conflict.ne_nil_right {l l' : List α} (h : Conflict l l') : l' ≠ [] := by
  rintro rfl
  obtain ⟨_, _, _, _, hnone, _⟩ := h
  simp at hnone

/-- A log is not in conflict with a longer one. -/
theorem not_conflict {l l' : List α} (h : l <+: l') : ¬ Conflict l l' := by
  rintro ⟨k, a, b, ha, hb, hne⟩
  exact hne (Option.some.inj ((getElem?_of_isPrefix h ha).symm.trans hb))

/-- One list continues the other, or they contradict each other. -/
theorem prefix_or_conflict (l l' : List α) : l <+: l' ∨ l' <+: l ∨ Conflict l l' := by
  induction l generalizing l' with
  | nil => exact Or.inl List.nil_prefix
  | cons a l ih =>
      cases l' with
      | nil => exact Or.inr (Or.inl List.nil_prefix)
      | cons b l' =>
          by_cases hab : a = b
          · subst hab
            rcases ih l' with h | h | ⟨k, x, y, hx, hy, hne⟩
            · exact Or.inl (List.cons_prefix_cons.2 ⟨rfl, h⟩)
            · exact Or.inr (Or.inl (List.cons_prefix_cons.2 ⟨rfl, h⟩))
            · exact Or.inr (Or.inr ⟨k + 1, x, y, hx, hy, hne⟩)
          · exact Or.inr (Or.inr ⟨0, a, b, rfl, rfl, hab⟩)

/-- A part of one list that the other starts with: all of the other, if it is a prefix. -/
theorem exists_common (l l' : List α) :
    ∃ k ≤ l'.length, l'.take k <+: l ∧ (l <+: l' → l.length ≤ k) := by
  rcases prefix_or_conflict l l' with h | h | h
  · have heq : l = l'.take l.length := List.prefix_iff_eq_take.1 h
    exact ⟨l.length, h.length_le, heq ▸ List.prefix_rfl, fun _ => le_rfl⟩
  · refine ⟨l'.length, le_rfl, ?_, fun hl => hl.length_le⟩
    rw [List.take_length]
    exact h
  · exact ⟨0, Nat.zero_le _, List.nil_prefix, fun hl => absurd h (not_conflict hl)⟩

/-! ### Coherent logs -/

/-- Every entry of `l` closes a prefix of the log of its term. -/
def Coherent (term : α → τ) (L : τ → List α) (l : List α) : Prop :=
  ∀ (k : ℕ) (a : α), l[k]? = some a → l.take (k + 1) <+: L (term a)

section

variable {term : α → τ} {L L' : τ → List α} {l l' : List α}

/-- A log without entries follows every ledger. -/
theorem Coherent.nil : Coherent term L [] := fun _ _ h => nomatch h

/-- What follows a ledger follows a longer one. -/
theorem Coherent.mono (h : Coherent term L l) (hle : ∀ t, L t <+: L' t) : Coherent term L' l :=
  fun k a ha => (h k a ha).trans (hle _)

/-- What follows a ledger does so up to any of its entries. -/
theorem Coherent.of_isPrefix (h : Coherent term L l) (hp : l' <+: l) : Coherent term L l' := by
  intro k a ha
  have hlt : k + 1 ≤ l'.length := (List.getElem?_eq_some_iff.1 ha).1
  have heq : l'.take (k + 1) = l.take (k + 1) := by
    obtain ⟨s, rfl⟩ := hp
    rw [List.take_append_of_le_length hlt]
  rw [heq]
  exact h k a (getElem?_of_isPrefix hp ha)

/-- **Coherent logs match.** -/
theorem Coherent.take_eq (h : Coherent term L l) (h' : Coherent term L l') {k : ℕ} {a a' : α}
    (ha : l[k]? = some a) (ha' : l'[k]? = some a') (hterm : term a = term a') :
    l.take (k + 1) = l'.take (k + 1) := by
  have hlt : k + 1 ≤ l.length := (List.getElem?_eq_some_iff.1 ha).1
  have hlt' : k + 1 ≤ l'.length := (List.getElem?_eq_some_iff.1 ha').1
  have hp := h k a ha
  rw [hterm] at hp
  refine (List.prefix_of_prefix_length_le hp (h' k a' ha') ?_).eq_of_length ?_ <;>
    rw [List.length_take_of_le hlt, List.length_take_of_le hlt']

/-- A log that goes on in the log of a term with entries of that term is coherent. -/
theorem Coherent.append {new : List α} {t : τ} (h : Coherent term L l) (hp : l ++ new <+: L t)
    (hnew : ∀ a ∈ new, term a = t) : Coherent term L (l ++ new) := by
  intro k a ha
  rcases Nat.lt_or_ge k l.length with hk | hk
  · rw [List.getElem?_append_left hk] at ha
    rw [List.take_append_of_le_length hk]
    exact h k a ha
  · rw [List.getElem?_append_right hk] at ha
    rw [hnew a (List.mem_of_getElem? ha)]
    exact (List.take_prefix _ _).trans hp

end

/-! ### Ledgers -/

/-- The log of the leader of every term, each coherent with all of them. -/
structure Ledger (term : α → τ) where
  log : τ → List α
  coherent : ∀ t, Coherent term log (log t)

namespace Ledger

variable {term : α → τ}

/-- No leader has been elected. -/
def empty : Ledger term where
  log _ := []
  coherent _ := Coherent.nil

instance : Preorder (Ledger term) where
  le L L' := ∀ t, L.log t <+: L'.log t
  le_refl _ _ := List.prefix_rfl
  le_trans _ _ _ h₁ h₂ t := (h₁ t).trans (h₂ t)

/-- What the log of a term begins with does not change. -/
theorem take_mono {L L' : Ledger term} (h : L ≤ L') {t : τ} {i : ℕ} (hi : i ≤ (L.log t).length) :
    (L'.log t).take i = (L.log t).take i := by
  obtain ⟨s, hs⟩ := h t
  rw [← hs, List.take_append_of_le_length hi]

/-- One log of a family grows, and none shrinks. -/
theorem prefix_update [DecidableEq τ] {L : τ → List α} {t : τ} {l : List α} (h : L t <+: l)
    (t' : τ) : L t' <+: Function.update L t l t' := by
  by_cases ht : t' = t
  · subst ht
    rwa [Function.update_self]
  · rw [Function.update_of_ne ht]

/-- The log of a term is written on. -/
def write [DecidableEq τ] (L : Ledger term) (t : τ) (l : List α) (hle : L.log t <+: l)
    (hl : Coherent term (Function.update L.log t l) l) : Ledger term where
  log := Function.update L.log t l
  coherent t' := by
    by_cases ht : t' = t
    · subst ht
      rwa [Function.update_self]
    · rw [Function.update_of_ne ht]
      exact (L.coherent t').mono (prefix_update hle)

section

variable [DecidableEq τ] (L : Ledger term) {t : τ} {l : List α} (hle : L.log t <+: l)
  (hl : Coherent term (Function.update L.log t l) l)

/-- The log that was written is that of the term. -/
theorem write_log_self : (L.write t l hle hl).log t = l := Function.update_self ..

/-- The logs of the other terms are as before. -/
theorem write_log_of_ne {t' : τ} (ht : t' ≠ t) : (L.write t l hle hl).log t' = L.log t' :=
  Function.update_of_ne ht ..

/-- Writing only adds to the ledger. -/
theorem le_write : L ≤ L.write t l hle hl := fun t' => prefix_update hle t'

end

/-- The first log of a term may be any coherent one. -/
theorem coherent_first [DecidableEq τ] (L : Ledger term) {t : τ} {l : List α}
    (hfree : L.log t = []) (hl : Coherent term L.log l) :
    Coherent term (Function.update L.log t l) l :=
  hl.mono (prefix_update (hfree ▸ List.nil_prefix))

/-- The leader of a term adds entries of the term. -/
theorem coherent_append [DecidableEq τ] (L : Ledger term) {t : τ} {new : List α}
    (hnew : ∀ a ∈ new, term a = t) :
    Coherent term (Function.update L.log t (L.log t ++ new)) (L.log t ++ new) := by
  refine Coherent.append ((L.coherent t).mono (prefix_update (List.prefix_append ..))) ?_ hnew
  rw [Function.update_self]

/-! ### What members hold -/

/-- The log `l` has the prefix `p`, or the leader of one of the terms contradicts it. -/
def Retains (L : Ledger term) (p l : List α) (terms : Set τ) : Prop :=
  p <+: l ∨ ∃ t ∈ terms, Conflict p (L.log t)

/-- What is retained stays so for a longer log and for more terms. -/
theorem Retains.mono {L L' : Ledger term} {p l l' : List α} {terms terms' : Set τ}
    (h : L.Retains p l terms) (hle : L ≤ L') (hl : l <+: l') (hterms : terms ⊆ terms') :
    L'.Retains p l' terms' := by
  rcases h with h | ⟨t, ht, hconf⟩
  · exact Or.inl (h.trans hl)
  · exact Or.inr ⟨t, hterms ht, hconf.mono (hle t)⟩

/-- A prefix that the leaders of the terms have is retained. -/
theorem Retains.isPrefix {L : Ledger term} {p l : List α} {terms : Set τ}
    (h : L.Retains p l terms) (hterms : ∀ t ∈ terms, L.log t ≠ [] → p <+: L.log t) : p <+: l := by
  rcases h with h | ⟨t, ht, hconf⟩
  · exact h
  · have hp : p <+: L.log t := hterms t ht hconf.ne_nil_right
    exact absurd hconf (not_conflict hp)

/-- Every leader started with what it held of earlier terms, unless an earlier leader
contradicts it. -/
def Inherits [Preorder τ] (L : Ledger term) (leader : τ → Option ν) (held : ν → τ → ℕ) : Prop :=
  ∀ t' p, leader t' = some p → ∀ t < t', ∀ i ≤ held p t,
    L.Retains ((L.log t).take i) (L.log t') (Set.Ioo t t')

/-- Leaders go on inheriting when their logs grow, when a new leader inherits, and
when a member comes to hold more of a term no earlier than those it led. -/
theorem Inherits.extend [Preorder τ] {L L' : Ledger term} {leader leader' : τ → Option ν}
    {held held' : ν → τ → ℕ} (h : L.Inherits leader held) (hle : L ≤ L')
    (hlen : ∀ p t, held p t ≤ (L.log t).length)
    (hheld : ∀ t' p, leader' t' = some p → ∀ t < t', held' p t = held p t)
    (hnew : ∀ t' p, leader' t' = some p → leader t' = some p ∨
      ∀ t < t', ∀ i ≤ held p t, L'.Retains ((L'.log t).take i) (L'.log t') (Set.Ioo t t')) :
    L'.Inherits leader' held' := by
  intro t' p hp t ht i hi
  rw [hheld t' p hp t ht] at hi
  rcases hnew t' p hp with hold | hnew
  · rw [take_mono hle (hi.trans (hlen p t))]
    exact (h t' p hold t ht i hi).mono hle (hle t') subset_rfl
  · exact hnew t ht i hi

/-- **What all members hold is never lost.**  It is in the log of every later leader. -/
theorem prefix_of_held [LinearOrder τ] [WellFoundedLT τ] {L : Ledger term}
    {leader : τ → Option ν} {held : ν → τ → ℕ} (hinherits : L.Inherits leader held)
    {members : ν → Prop} (hmember : ∀ t p, leader t = some p → members p)
    (hopen : ∀ t, leader t = none → L.log t = []) {t : τ} {i : ℕ}
    (hheld : ∀ p, members p → i ≤ held p t) {t' : τ} (ht : t < t') (hled : L.log t' ≠ []) :
    (L.log t).take i <+: L.log t' := by
  induction t' using WellFoundedLT.induction with
  | ind t' ih =>
      cases hp : leader t' with
      | none => exact absurd (hopen t' hp) hled
      | some p =>
          -- a leader that contradicts it would be an earlier one, which has it
          exact (hinherits t' p hp t ht i (hheld p (hmember t' p hp))).isPrefix
            fun t'' hbetween hled' => ih t'' hbetween.2 hbetween.1 hled'

end Ledger

end Protocol
end RaftPlayground
