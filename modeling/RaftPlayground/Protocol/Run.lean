/-
# Runs of a transition system, with their history

A system is a relation `next s a s'`: the action `a` takes the state `s` to
`s'`.  A `Run` from `init` ends in a state and keeps every step it took, the
latest first, so that a property of a whole run is a property of its list of
steps and a later run is a longer list.

`Run.invariant` is induction on the run, and `Run.history_invariant` the same where
what a step may do depends on the steps before.  `Run.guarded_iff` compares a property
of the steps of a run with a guard on them.  `Run.exists_ghost` is the same rule
for an invariant that speaks of a value outside the state, which every step may
only increase: what a step recorded about the value it reached still holds of
the value at the end.  Where `next` is the graph of a partial function, a list of
actions can be replayed, and `exists_of_replay` turns the evaluation of a check
on the replayed run into a run that passes it.

`Run.simulation` carries the runs of one system over to another, and `Run.map` is the case
where a function of the state does.  `Run.refinement` is the same where a step may be matched by
any number of steps, and what is kept may speak of both histories.
-/

import Mathlib.Data.List.Basic
import Mathlib.Order.Basic

namespace RaftPlayground
namespace Protocol

/-- One step of a run. -/
structure Step (σ α : Type*) where
  before : σ
  act : α
  after : σ

/-- The runs of `next` from `init`, with the steps taken, the latest first. -/
inductive Run {σ α : Type*} (next : σ → α → σ → Prop) (init : σ) : List (Step σ α) → σ → Prop
  | nil : Run next init [] init
  | cons {h s a s'} : Run next init h s → next s a s' → Run next init (⟨s, a, s'⟩ :: h) s'

/-- The states of a run: where it starts, and where each of its steps leads. -/
def Visited {σ α : Type*} (init : σ) (h : List (Step σ α)) (s : σ) : Prop :=
  s = init ∨ ∃ st ∈ h, st.after = s

/-- Every step meets the guard, given the steps before it. -/
def Guarded {σ α : Type*} (guard : List (Step σ α) → Step σ α → Prop) :
    List (Step σ α) → Prop
  | [] => True
  | st :: h => guard h st ∧ Guarded guard h

instance {σ α : Type*} (guard : List (Step σ α) → Step σ α → Prop)
    [∀ h st, Decidable (guard h st)] : ∀ h, Decidable (Guarded guard h)
  | [] => isTrue trivial
  | st :: h =>
    have := instDecidableGuarded guard h
    inferInstanceAs (Decidable (guard h st ∧ Guarded guard h))

theorem guarded_const {σ α : Type*} {p : Step σ α → Prop} {h : List (Step σ α)} :
    Guarded (fun _ => p) h ↔ ∀ st ∈ h, p st := by
  induction h with
  | nil => exact ⟨fun _ st hst => absurd hst List.not_mem_nil, fun _ => trivial⟩
  | cons st h ih => rw [List.forall_mem_cons, ← ih, Guarded]

theorem Guarded.of_suffix {σ α : Type*} {guard : List (Step σ α) → Step σ α → Prop}
    {h h' : List (Step σ α)} (hguard : Guarded guard h) (hsuf : h' <:+ h) : Guarded guard h' := by
  induction h with
  | nil => exact List.suffix_nil.1 hsuf ▸ trivial
  | cons st h ih =>
      rcases List.suffix_cons_iff.1 hsuf with rfl | hsuf
      · exact hguard
      · exact ih hguard.2 hsuf

/-- The actions one after the other, each where it is possible. -/
def replay {σ α : Type*} (step : σ → α → Option σ) :
    List (Step σ α) → σ → List α → Option (List (Step σ α) × σ)
  | h, s, [] => some (h, s)
  | h, s, a :: as => (step s a).bind fun s' => replay step (⟨s, a, s'⟩ :: h) s' as

/-- The same for steps that put something out, which becomes part of what they are labelled
with. -/
def replayWith {σ α ι ο : Type*} (step : σ → ι → Option (σ × ο)) (label : ι → ο → α) :
    List (Step σ α) → σ → List ι → Option (List (Step σ α) × σ)
  | h, s, [] => some (h, s)
  | h, s, i :: is =>
    (step s i).bind fun r => replayWith step label (⟨s, label i r.2, r.1⟩ :: h) r.1 is

namespace Run

variable {σ α : Type*} {next : σ → α → σ → Prop} {init s : σ} {h : List (Step σ α)}

/-- **Induction on a run, with its history.**  An invariant of the history and the
state that holds at the start and is kept by every step the guard admits after its
history holds at the end of every run of admitted steps. -/
theorem history_invariant (guard : List (Step σ α) → Step σ α → Prop)
    (inv : List (Step σ α) → σ → Prop) (start : inv [] init)
    (step : ∀ h s a s', Run next init h s → inv h s → next s a s' → guard h ⟨s, a, s'⟩ →
      inv (⟨s, a, s'⟩ :: h) s')
    (hrun : Run next init h s) (hguard : Guarded guard h) : inv h s := by
  induction hrun with
  | nil => exact start
  | cons hrun hnext ih => exact step _ _ _ _ hrun (ih hguard.2) hnext hguard.1

/-- **Induction on a run**, where the guard is about the step alone. -/
theorem invariant (guard : Step σ α → Prop) (inv : List (Step σ α) → σ → Prop)
    (start : inv [] init)
    (step : ∀ h s a s', Run next init h s → inv h s → next s a s' → guard ⟨s, a, s'⟩ →
      inv (⟨s, a, s'⟩ :: h) s')
    (hrun : Run next init h s) (hguard : ∀ st ∈ h, guard st) : inv h s := by
  exact history_invariant (fun _ => guard) inv start step hrun (guarded_const.2 hguard)

/-- **A property of the steps and a guard** that agree on each step after guarded steps
agree on a run. -/
theorem guarded_iff {p guard : List (Step σ α) → Step σ α → Prop}
    (step : ∀ h s a s', Run next init h s → next s a s' → Guarded guard h →
      (p h ⟨s, a, s'⟩ ↔ guard h ⟨s, a, s'⟩))
    (hrun : Run next init h s) : Guarded p h ↔ Guarded guard h := by
  induction hrun with
  | nil => exact Iff.rfl
  | cons hrun hnext ih =>
      constructor
      · rintro ⟨hp, hpast⟩
        exact ⟨(step _ _ _ _ hrun hnext (ih.1 hpast)).1 hp, ih.1 hpast⟩
      · rintro ⟨hg, hpast⟩
        exact ⟨(step _ _ _ _ hrun hnext hpast).2 hg, ih.2 hpast⟩

/-- A run visits its last state. -/
theorem visited (hrun : Run next init h s) : Visited init h s := by
  cases hrun with
  | nil => exact Or.inl rfl
  | cons _ _ => exact Or.inr ⟨_, List.mem_cons_self, rfl⟩

/-- Every step of a run is a transition, taken at the end of the run before it. -/
theorem step_of_mem (hrun : Run next init h s) {st : Step σ α} (hst : st ∈ h) :
    ∃ h', Run next init h' st.before ∧ (st :: h') <:+ h ∧ next st.before st.act st.after := by
  induction hrun with
  | nil => simp at hst
  | cons hrun hnext ih =>
      rcases List.mem_cons.1 hst with rfl | hst
      · exact ⟨_, hrun, List.suffix_rfl, hnext⟩
      · obtain ⟨h', h₁, h₂, h₃⟩ := ih hst
        exact ⟨h', h₁, h₂.trans (List.suffix_cons _ _), h₃⟩

/-- The run up to a step and the step itself. -/
theorem of_suffix (hrun : Run next init h s) {st : Step σ α} {h' : List (Step σ α)}
    (hsuf : (st :: h') <:+ h) : Run next init (st :: h') st.after := by
  induction hrun with
  | nil => exact absurd (List.suffix_nil.1 hsuf) (List.cons_ne_nil _ _)
  | cons hrun hnext ih =>
      rcases List.suffix_cons_iff.1 hsuf with heq | hsuf
      · obtain ⟨rfl, rfl⟩ := List.cons.inj heq
        exact .cons hrun hnext
      · exact ih hsuf

/-- A state a run visits is the end of a run of its own. -/
theorem of_visited (hrun : Run next init h s) {s₁ : σ} (hvisit : Visited init h s₁) :
    ∃ h', h' <:+ h ∧ Run next init h' s₁ := by
  rcases hvisit with rfl | ⟨st, hst, rfl⟩
  · exact ⟨[], List.nil_suffix, .nil⟩
  · obtain ⟨h', _, hsuf, _⟩ := hrun.step_of_mem hst
    exact ⟨_, hsuf, hrun.of_suffix hsuf⟩

theorem of_replay {step : σ → α → Option σ} {h h' : List (Step σ α)} {s s' : σ} {as : List α}
    (hrun : Run (fun s a s' => step s a = some s') init h s)
    (hreplay : replay step h s as = some (h', s')) :
    Run (fun s a s' => step s a = some s') init h' s' := by
  induction as generalizing h s with
  | nil =>
      obtain ⟨rfl, rfl⟩ := Prod.mk.inj (Option.some.inj hreplay)
      exact hrun
  | cons a as ih =>
      obtain ⟨s₁, hstep, hreplay⟩ := Option.bind_eq_some_iff.1 hreplay
      exact ih (hrun.cons hstep) hreplay

/-- **A run by evaluation.** -/
theorem exists_of_replay {step : σ → α → Option σ} (as : List α)
    (P : List (Step σ α) → σ → Prop) [∀ h s, Decidable (P h s)]
    (hcheck : (replay step [] init as).any (fun x => decide (P x.1 x.2)) = true) :
    ∃ h s, Run (fun s a s' => step s a = some s') init h s ∧ P h s := by
  obtain ⟨⟨h, s⟩, hreplay, hP⟩ := (Option.any_eq_true _ _).1 hcheck
  exact ⟨h, s, of_replay .nil hreplay, of_decide_eq_true hP⟩

theorem of_replayWith {ι ο : Type*} {step : σ → ι → Option (σ × ο)} {label : ι → ο → α}
    {h' : List (Step σ α)} {s' : σ} {is : List ι}
    (hnext : ∀ s i r, step s i = some r → next s (label i r.2) r.1) (hrun : Run next init h s)
    (hreplay : replayWith step label h s is = some (h', s')) : Run next init h' s' := by
  induction is generalizing h s with
  | nil =>
      obtain ⟨rfl, rfl⟩ := Prod.mk.inj (Option.some.inj hreplay)
      exact hrun
  | cons i is ih =>
      obtain ⟨r, hstep, hreplay⟩ := Option.bind_eq_some_iff.1 hreplay
      exact ih (hrun.cons (hnext _ _ _ hstep)) hreplay

/-- **A run by evaluation**, of steps that put something out. -/
theorem exists_of_replayWith {ι ο : Type*} {step : σ → ι → Option (σ × ο)} {label : ι → ο → α}
    (hnext : ∀ s i r, step s i = some r → next s (label i r.2) r.1) (is : List ι)
    (P : List (Step σ α) → σ → Prop) [∀ h s, Decidable (P h s)]
    (hcheck : (replayWith step label [] init is).any (fun x => decide (P x.1 x.2)) = true) :
    ∃ h s, Run next init h s ∧ P h s := by
  obtain ⟨⟨h, s⟩, hreplay, hP⟩ := (Option.any_eq_true _ _).1 hcheck
  exact ⟨h, s, of_replayWith hnext .nil hreplay, of_decide_eq_true hP⟩

/-- A system that is never stuck has runs of any length. -/
theorem exists_of_length (total : ∀ h s, Run next init h s → ∃ a s', next s a s') (m : ℕ) :
    ∃ h s, Run next init h s ∧ h.length = m := by
  induction m with
  | zero => exact ⟨[], init, .nil, rfl⟩
  | succ m ih =>
      obtain ⟨h, s, hrun, hlen⟩ := ih
      obtain ⟨a, s', hnext⟩ := total h s hrun
      exact ⟨_, s', hrun.cons hnext, by rw [List.length_cons, hlen]⟩

/-- The first step of a run with a property, and the run up to it. -/
theorem exists_first {p : Step σ α → Prop} (hrun : Run next init h s) (hsome : ∃ st ∈ h, p st) :
    ∃ st h', Run next init (st :: h') st.after ∧ p st ∧ ∀ st' ∈ h', ¬ p st' := by
  induction hrun with
  | nil => simp at hsome
  | @cons h s a s' hrun hnext ih =>
      by_cases hbefore : ∃ st ∈ h, p st
      · exact ih hbefore
      · obtain ⟨st, hst, hp⟩ := hsome
        rcases List.mem_cons.1 hst with rfl | hst
        · exact ⟨_, h, hrun.cons hnext, hp, fun st' hst' hp' => hbefore ⟨st', hst', hp'⟩⟩
        · exact absurd ⟨st, hst, hp⟩ hbefore

/-- **Simulation of runs.**  If every step from related states is matched by a step
with its label, every run is matched by a run with its labels. -/
theorem simulation {τ β : Type*} {next' : τ → β → τ → Prop} {init' : τ} (R : σ → τ → Prop)
    (label : α → β) (start : R init init')
    (step : ∀ s a s' t, R s t → next s a s' → ∃ t', next' t (label a) t' ∧ R s' t')
    (hrun : Run next init h s) :
    ∃ h' t, Run next' init' h' t ∧ R s t ∧ h'.map Step.act = h.map fun st => label st.act := by
  induction hrun with
  | nil => exact ⟨[], init', .nil, start, rfl⟩
  | cons _ hnext ih =>
      obtain ⟨h', t, hrun', hR, hlabels⟩ := ih
      obtain ⟨t', hnext', hR'⟩ := step _ _ _ t hR hnext
      exact ⟨_, t', hrun'.cons hnext', hR', by rw [List.map_cons, List.map_cons, hlabels]⟩

/-- A run goes on with the runs from its end. -/
theorem append {h' : List (Step σ α)} {s' : σ} (hrun : Run next init h s)
    (hrun' : Run next s h' s') : Run next init (h' ++ h) s' := by
  induction hrun' with
  | nil => exact hrun
  | cons _ hnext ih => exact ih.cons hnext

/-- **Refinement of runs.**  If every step after related runs is matched by some steps, or by none,
every run is matched by a run. -/
theorem refinement {τ β : Type*} {next' : τ → β → τ → Prop} {init' : τ}
    (R : List (Step σ α) → σ → List (Step τ β) → τ → Prop) (start : R [] init [] init')
    (step : ∀ h s a s' h' t, Run next init h s → Run next' init' h' t → R h s h' t → next s a s' →
      ∃ h'' t', Run next' t h'' t' ∧ R (⟨s, a, s'⟩ :: h) s' (h'' ++ h') t')
    (hrun : Run next init h s) : ∃ h' t, Run next' init' h' t ∧ R h s h' t := by
  induction hrun with
  | nil => exact ⟨[], init', .nil, start⟩
  | cons hrun hnext ih =>
      obtain ⟨h', t, hrun', hR⟩ := ih
      obtain ⟨h'', t', hrun'', hR'⟩ := step _ _ _ _ _ _ hrun hrun' hR hnext
      exact ⟨h'' ++ h', t', hrun'.append hrun'', hR'⟩

/-- **A run seen through its states** is a run of the system its steps are steps of. -/
theorem map {τ β : Type*} {next' : τ → β → τ → Prop} (f : σ → τ) (act : Step σ α → β)
    (guard : Step σ α → Prop)
    (step : ∀ s a s', next s a s' → guard ⟨s, a, s'⟩ → next' (f s) (act ⟨s, a, s'⟩) (f s'))
    (hrun : Run next init h s) (hguard : ∀ st ∈ h, guard st) :
    Run next' (f init) (h.map fun st => ⟨f st.before, act st, f st.after⟩) (f s) := by
  induction hrun with
  | nil => exact .nil
  | cons hrun hnext ih =>
      rw [List.forall_mem_cons] at hguard
      exact (ih hguard.2).cons (step _ _ _ hnext hguard.1)

variable {γ : Type*} [Preorder γ]

/-- **Induction on a run with a growing ghost.**  `inv g h s` speaks of a ghost
value `g`.  A step may replace it by a larger one, for which it records `fact`;
a recorded fact outlives every later growth. -/
theorem exists_ghost (guard : Step σ α → Prop) (inv : γ → List (Step σ α) → σ → Prop)
    (fact : γ → Step σ α → Prop) (mono : ∀ {g g' st}, g ≤ g' → fact g st → fact g' st)
    (start : ∃ g, inv g [] init)
    (step : ∀ g h s a s', Run next init h s → inv g h s → next s a s' → guard ⟨s, a, s'⟩ →
      ∃ g', g ≤ g' ∧ inv g' (⟨s, a, s'⟩ :: h) s' ∧ fact g' ⟨s, a, s'⟩)
    (hrun : Run next init h s) (hguard : ∀ st ∈ h, guard st) :
    ∃ g, inv g h s ∧ ∀ st ∈ h, fact g st := by
  induction hrun with
  | nil =>
      obtain ⟨g, hg⟩ := start
      exact ⟨g, hg, fun _ hst => absurd hst List.not_mem_nil⟩
  | cons hrun hnext ih =>
      rw [List.forall_mem_cons] at hguard
      obtain ⟨g, hg, hfact⟩ := ih hguard.2
      obtain ⟨g', hle, hg', hnew⟩ := step g _ _ _ _ hrun hg hnext hguard.1
      exact ⟨g', hg', List.forall_mem_cons.2 ⟨hnew, fun st hst => mono hle (hfact st hst)⟩⟩

end Run

end Protocol
end RaftPlayground
