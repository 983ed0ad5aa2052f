/-
# A store of streams

A store keeps one list of items, each under a key and at a place, and is read one key at a
time.  A reader gets the items under the key in their order, numbered from zero, each with
its place in the list of all of them.

`StoreNext` is the store as a transition system: it appends, it answers reads, and nothing is
taken out.  Its runs give a reader two things.  A later read of a key continues an earlier one
(`reads_grow`), and what was appended under a key is in every later read of it, in one piece
and in order (`written_is_read`).
-/

import RaftPlayground.Protocol.Run

namespace RaftPlayground
namespace Protocol

/-- An item of the store. -/
structure Item (κ ι ν : Type*) where
  key : κ
  place : ι
  value : ν

/-- What a reader gets for an item: its place, its number under the key, and its value. -/
structure Reading (ι ν : Type*) where
  place : ι
  revision : ℕ
  value : ν

/-- What the store is asked, with what it answers. -/
inductive StoreAct (κ ι ν : Type*)
  | append (k : κ) (new : List (ι × ν))
  | read (k : κ) (found : List (Reading ι ν))
  | skip

section

variable {κ ι ν : Type*}

/-- New items under a key. -/
def itemsAt (k : κ) (new : List (ι × ν)) : List (Item κ ι ν) :=
  new.map fun x => { key := k, place := x.1, value := x.2 }

/-- New items as a reader gets them, numbered from `n` on. -/
def readings (new : List (ι × ν)) (n : ℕ) : List (Reading ι ν) :=
  (new.zipIdx n).map fun x => { place := x.1.1, revision := x.2, value := x.1.2 }

variable [DecidableEq κ]

/-- The items under a key, numbered from `n` on. -/
def readFrom (k : κ) : List (Item κ ι ν) → ℕ → List (Reading ι ν)
  | [], _ => []
  | r :: l, n =>
    if r.key = k then ⟨r.place, n, r.value⟩ :: readFrom k l (n + 1) else readFrom k l n

/-- One step of the store. -/
def StoreNext (l : List (Item κ ι ν)) : StoreAct κ ι ν → List (Item κ ι ν) → Prop
  | .append k new, l' => l' = l ++ itemsAt k new
  | .read k found, l' => l' = l ∧ found = readFrom k l 0
  | .skip, l' => l' = l

variable {k : κ} {l l₀ l₁ l₂ : List (Item κ ι ν)}

theorem readFrom_append (l₁ l₂ : List (Item κ ι ν)) (n : ℕ) :
    readFrom k (l₁ ++ l₂) n =
      readFrom k l₁ n ++ readFrom k l₂ (n + (readFrom k l₁ n).length) := by
  induction l₁ generalizing n with
  | nil => rfl
  | cons r l₁ ih =>
      rw [List.cons_append, readFrom, readFrom]
      split_ifs
      · rw [ih, List.cons_append, List.length_cons, Nat.add_assoc, Nat.add_comm 1]
      · exact ih n

/-- What a reader gets of a longer list continues what it gets of a shorter one. -/
theorem readFrom_isPrefix (h : l₁ <+: l₂) (n : ℕ) : readFrom k l₁ n <+: readFrom k l₂ n := by
  obtain ⟨l, rfl⟩ := h
  rw [readFrom_append]
  exact List.prefix_append ..

theorem readFrom_itemsAt (new : List (ι × ν)) (n : ℕ) :
    readFrom k (itemsAt k new) n = readings new n := by
  induction new generalizing n with
  | nil => rfl
  | cons x new ih =>
      rw [itemsAt, List.map_cons, readFrom, if_pos rfl, readings, List.zipIdx_cons,
        List.map_cons]
      exact congrArg _ (ih (n + 1))

/-- A reader gets nothing that is not under the key. -/
theorem mem_readFrom {n : ℕ} {x : Reading ι ν} (hx : x ∈ readFrom k l n) :
    ∃ r ∈ l, r.key = k ∧ r.place = x.place ∧ r.value = x.value := by
  induction l generalizing n with
  | nil => exact absurd hx List.not_mem_nil
  | cons r l ih =>
      rw [readFrom] at hx
      split_ifs at hx with hk
      · rcases List.mem_cons.1 hx with rfl | hx
        · exact ⟨r, List.mem_cons_self, hk, rfl, rfl⟩
        · obtain ⟨r', hr', hread⟩ := ih hx
          exact ⟨r', List.mem_cons_of_mem _ hr', hread⟩
      · obtain ⟨r', hr', hread⟩ := ih hx
        exact ⟨r', List.mem_cons_of_mem _ hr', hread⟩

/-- **One step** takes nothing out of the store. -/
theorem StoreNext.isPrefix {a : StoreAct κ ι ν} (h : StoreNext l a l₁) : l <+: l₁ := by
  cases a with
  | append k new => exact ⟨_, h.symm⟩
  | read => exact h.1 ▸ List.prefix_rfl
  | skip => exact h ▸ List.prefix_rfl

variable {h : List (Step (List (Item κ ι ν)) (StoreAct κ ι ν))}

/-- What the store held after a step it still holds at the end. -/
theorem after_isPrefix (hrun : Run StoreNext l₀ h l) : ∀ st ∈ h, st.after <+: l := by
  induction hrun with
  | nil => exact fun st hst => absurd hst List.not_mem_nil
  | cons _ hnext ih =>
      exact List.forall_mem_cons.2
        ⟨List.prefix_rfl, fun st hst => (ih st hst).trans hnext.isPrefix⟩

/-- **A later read continues an earlier one.** -/
theorem reads_grow (hrun : Run StoreNext l₀ h l) :
    h.Pairwise fun later earlier => ∀ k found found', earlier.act = .read k found →
      later.act = .read k found' → found <+: found' := by
  induction hrun with
  | nil => exact .nil
  | @cons _ _ a _ hrun hnext ih =>
      refine List.pairwise_cons.2 ⟨fun st hst k found found' hread hread' => ?_, ih⟩
      obtain ⟨_, _, _, hbefore⟩ := hrun.step_of_mem hst
      rw [hread] at hbefore
      obtain ⟨hsame, rfl⟩ := hbefore
      obtain rfl : a = .read k found' := hread'
      rw [hnext.2]
      exact readFrom_isPrefix (hsame ▸ after_isPrefix hrun st hst) 0

/-- **What was appended is read**, in one piece, by every later read of its key. -/
theorem written_is_read (hrun : Run StoreNext l₀ h l) :
    h.Pairwise fun later earlier => ∀ k new found, earlier.act = .append k new →
      later.act = .read k found → ∃ n, readings new n <:+: found := by
  induction hrun with
  | nil => exact .nil
  | @cons _ _ a _ hrun hnext ih =>
      refine List.pairwise_cons.2 ⟨fun st hst k new found happend hread => ?_, ih⟩
      obtain ⟨_, _, _, hstored⟩ := hrun.step_of_mem hst
      rw [happend] at hstored
      have hstored : st.after = st.before ++ itemsAt k new := hstored
      obtain ⟨rest, hrest⟩ := after_isPrefix hrun st hst
      obtain rfl : a = .read k found := hread
      rw [hnext.2, ← hrest, hstored, readFrom_append, readFrom_append, readFrom_itemsAt]
      exact ⟨_, (readFrom k st.before 0), _, rfl⟩

end

end Protocol
end RaftPlayground
