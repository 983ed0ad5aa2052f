/-
# A receiver that catches up with a sender

A sender holds a list and a receiver a part of it, and the sender does not know how
long a part.  It probes a position: a receiver that does not reach so far refuses, and
the sender moves one position down; a receiver that ends there takes the next batch,
and the sender follows it to its new end.

A probe that starts between the end of the receiver and the end of the list finds it
after as many refusals as they are apart, and no refusal comes after
(`Lag.Reached`).  From there every batch brings its full size until the list is
exhausted (`Lag.Reached.got_eq`).
-/

import RaftPlayground.Protocol.Run
import Mathlib.Data.List.Infix

namespace RaftPlayground
namespace Protocol

variable {α : Type*}

/-- The part the receiver has, and the position the sender probes. -/
structure Lag (α : Type*) where
  got : List α
  probe : ℕ

/-- What the receiver has of the list after the next batch. -/
def Lag.take (list : List α) (batch : ℕ) (got : List α) : List α :=
  got ++ (list.drop got.length).take batch

/-- One probe, refused or accepted. -/
inductive Lag.Next (list : List α) (batch : ℕ) : Lag α → Bool → Lag α → Prop
  | refused {got probe} (beyond : got.length < probe) :
      Next list batch ⟨got, probe⟩ false ⟨got, probe - 1⟩
  | accepted {got probe} (found : got.length = probe) :
      Next list batch ⟨got, probe⟩ true
        ⟨Lag.take list batch got, (Lag.take list batch got).length⟩

namespace Lag

variable {list got : List α} {batch : ℕ} {start s s' : Lag α} {ok : Bool}

/-- With the next batch a part of the list is a longer part of it. -/
theorem take_eq (hgot : got <+: list) :
    Lag.take list batch got = list.take (got.length + batch) := by
  obtain ⟨rest, rfl⟩ := hgot
  rw [Lag.take, List.drop_left, List.take_length_add_append]

/-- The receiver has a part of the list, and the probe is between its end and the end
of the list. -/
structure Within (list : List α) (s : Lag α) : Prop where
  got : s.got <+: list
  above : s.got.length ≤ s.probe
  below : s.probe ≤ list.length

/-- **One probe** leaves a part of the list, and takes nothing from the receiver. -/
theorem Within.next (hw : s.Within list) (hnext : Next list batch s ok s') :
    s'.Within list ∧ s.got <+: s'.got := by
  obtain ⟨hgot, habove, hbelow⟩ := hw
  cases hnext with
  | @refused got probe beyond =>
      refine ⟨⟨hgot, ?_, ?_⟩, List.prefix_rfl⟩
      · show got.length ≤ probe - 1
        omega
      · exact (Nat.sub_le _ _).trans hbelow
  | @accepted got =>
      have htake : Lag.take list batch got <+: list := take_eq hgot ▸ List.take_prefix _ _
      exact ⟨⟨htake, le_rfl, htake.length_le⟩, List.prefix_append _ _⟩

/-- What a run of probes has come to, by the number of batches and refusals. -/
structure Reached (list : List α) (batch : ℕ) (start : Lag α) (labels : List Bool) (s : Lag α) :
    Prop where
  within : s.Within list
  /-- Until the first batch only the probe moves. -/
  searching : labels.count true = 0 →
    s.got = start.got ∧ s.probe + labels.count false = start.probe
  /-- From the first batch on it is where the receiver ends. -/
  following : 0 < labels.count true → s.probe = s.got.length
  refused : labels.count false + start.got.length ≤ start.probe
  gained : min list.length (start.got.length + batch * labels.count true) ≤ s.got.length

theorem Reached.next {labels : List Bool} (hr : Reached list batch start labels s)
    (hnext : Next list batch s ok s') : Reached list batch start (ok :: labels) s' := by
  have hwithin := (hr.within.next hnext).1
  cases hnext with
  | @refused got probe beyond =>
      have hnone : labels.count true = 0 := by
        by_contra hsome
        have hfound : probe = got.length := hr.following (Nat.pos_of_ne_zero hsome)
        omega
      obtain ⟨hgot, hprobe⟩ : got = start.got ∧ probe + labels.count false = start.probe :=
        hr.searching hnone
      have htrue : (false :: labels).count true = 0 := by simp [hnone]
      have hfalse : (false :: labels).count false = labels.count false + 1 := by simp
      constructor
      case within => exact hwithin
      case searching =>
        refine fun _ => ⟨hgot, ?_⟩
        show probe - 1 + (false :: labels).count false = start.probe
        omega
      case following => exact fun hpos => absurd htrue hpos.ne'
      case refused =>
        rw [hfalse, ← hgot]
        omega
      case gained =>
        rw [htrue, hgot]
        exact min_le_right _ _
  | @accepted got probe =>
      have htrue : (true :: labels).count true = labels.count true + 1 := by simp
      have hfalse : (true :: labels).count false = labels.count false := by simp
      constructor
      case within => exact hwithin
      case searching =>
        intro hnone
        omega
      case following => exact fun _ => rfl
      case refused =>
        rw [hfalse]
        exact hr.refused
      case gained =>
        have hgained : min list.length (start.got.length + batch * labels.count true) ≤
            got.length := hr.gained
        have hgot : got <+: list := hr.within.got
        show min _ _ ≤ (Lag.take list batch got).length
        rw [take_eq hgot, List.length_take, htrue, Nat.mul_succ]
        omega

/-- **What a run of probes comes to.** -/
theorem reached_of_run {h : List (Step (Lag α) Bool)} (hstart : start.Within list)
    (hrun : Run (Next list batch) start h s) :
    Reached list batch start (h.map Step.act) s := by
  induction hrun with
  | nil =>
      refine ⟨hstart, fun _ => ⟨rfl, rfl⟩, fun hpos => absurd hpos (Nat.lt_irrefl 0), ?_, ?_⟩
      · rw [List.map_nil, List.count_nil, Nat.zero_add]
        exact hstart.above
      · exact min_le_right _ _
  | cons _ hnext ih => exact ih.next hnext

/-- After enough batches the receiver has the list. -/
theorem Reached.got_eq {labels : List Bool} (hr : Reached list batch start labels s)
    (henough : list.length ≤ start.got.length + batch * labels.count true) : s.got = list := by
  have hgained := hr.gained
  rw [min_eq_left henough] at hgained
  exact hr.within.got.eq_of_length_le hgained

end Lag

end Protocol
end RaftPlayground
