/-
# Browsing the history, and back to the draft

The arrows walk over the entries of the history and, behind the newest, the line that stood
in the prompt before: the draft.  `position` is where they lead and `shown` what the prompt
has to show there.  The draft is kept in `temp_prompt` when `Up` leaves the head.

It is not given back where it is empty, which `Down` takes for no draft at all; where the
history has one entry, `prev_entry` stays at the head, so that a second `Up` keeps that
entry as the draft; and where `Down` comes first, which shows what an earlier browse kept.
In every other run of the arrows it is, and in these only where the line shown happens to
read the same (`draft_given_back_iff`).
-/

import RaftPlayground.Protocol.Run
import RaftPlayground.Repl.State

namespace RaftPlayground
namespace Repl

open Protocol
open Server (asBytes)

/-- The keys that browse. -/
inductive Arrow where
  | up
  | down
deriving DecidableEq, Repr

/-- The key of an arrow. -/
def Arrow.key : Arrow → Key
  | .up => .up
  | .down => .down

/-- Where some arrows lead, the latest first: from behind the entries, one back or forward. -/
def position (len : ℕ) : List Arrow → ℕ
  | [] => len
  | .up :: keys => position len keys - 1
  | .down :: keys => min (position len keys + 1) len

namespace State

/-- An arrow leads to the state, whatever comes from outside. -/
def Pressed (s : State) (k : Arrow) (s' : State) : Prop :=
  ∀ env, s.onInput env k.key = some (s', true)

/-- What an arrow does to a state whose popup is not shown. -/
def pressed (s : State) : Arrow → State
  | .up =>
    { s with
      history := { s.history with
        offset := if s.history.entries.length = 1 then s.history.offset
          else s.history.offset - 1 }
      prompt := s.history.entries[s.history.offset - 1]?.getD s.prompt
      tempPrompt := if s.history.offsetIsHead then s.prompt else s.tempPrompt }
  | .down =>
    { s with
      history := { s.history with
        offset := min (s.history.offset + 1) s.history.entries.length }
      prompt := s.history.entries[s.history.offset + 1]?.getD
        (if s.tempPrompt = "" then s.prompt else s.tempPrompt) }

variable {s s' : State} {k : Arrow}

/-- **One arrow** on a history in range does not panic. -/
theorem onInput_arrow (hshown : s.popup.shown = false)
    (hin : s.history.offset ≤ s.history.entries.length) (env : Env) (k : Arrow) :
    s.onInput env k.key = some (s.pressed k, true) := by
  have hkeys : ¬ s.popup.shown = true := by simp [hshown]
  cases k with
  | up =>
      have hkept : (if s.history.offsetIsHead then { s with tempPrompt := s.prompt } else s) =
          { s with tempPrompt := if s.history.offsetIsHead then s.prompt else s.tempPrompt } := by
        split_ifs <;> rfl
      rw [Arrow.key, onInput, if_neg hkeys]
      dsimp only
      rw [hkept, History.prevEntry_eq hin, pressed]
      cases s.history.entries[s.history.offset - 1]? with
      | none => rfl
      | some line => rfl
  | down =>
      rw [Arrow.key, onInput, if_neg hkeys]
      dsimp only
      rw [History.nextEntry_eq hin, pressed]
      cases s.history.entries[s.history.offset + 1]? with
      | none =>
          by_cases hempty : s.tempPrompt = ""
          · simp [hempty]
          · simp [hempty]
      | some line => rfl

/-- A popup that is shown takes the arrows, and stays. -/
theorem onInput_arrow_of_shown (hshown : s.popup.shown = true) (env : Env) (k : Arrow) :
    s.onInput env k.key = some ({ s with popup := s.popup.onInput k.key }, true) := by
  exact if_pos hshown

theorem pressed_iff (hshown : s.popup.shown = false)
    (hin : s.history.offset ≤ s.history.entries.length) : s.Pressed k s' ↔ s' = s.pressed k := by
  constructor
  · intro hpressed
    have hnext := hpressed ⟨"", .done⟩
    rw [onInput_arrow hshown hin] at hnext
    exact (congrArg Prod.fst (Option.some.inj hnext)).symm
  · rintro rfl env
    exact onInput_arrow hshown hin env k

end State

/-- `Down` was pressed, and found nothing newer. -/
def WalkedBack (t : Step State Arrow) : Prop :=
  t.act = .down ∧ t.before.popup.shown = false ∧
    t.before.history.nextEntry.map Prod.snd = some none

instance (t : Step State Arrow) : Decidable (WalkedBack t) :=
  inferInstanceAs (Decidable (_ ∧ _ ∧ _))

/-- There is one entry, and the latest two keys asked for it. -/
def AskedTwice (entries : List String) (keys : List Arrow) : Prop :=
  entries.length = 1 ∧ [.up, .up] <+: keys

instance (entries : List String) (keys : List Arrow) : Decidable (AskedTwice entries keys) :=
  inferInstanceAs (Decidable (_ ∧ _))

/-- The keys since a state at the head, and what that state must be like, for `Down` to give
back the draft if it finds nothing newer. -/
structure GivesBack (s₀ : State) (keys : List Arrow) : Prop where
  /-- At the draft: `Up` kept it, or nothing else was kept before. -/
  draft : position s₀.history.entries.length keys = s₀.history.entries.length → .up ∉ keys →
    s₀.tempPrompt = "" ∨ s₀.tempPrompt = s₀.prompt
  /-- At the newest entry: it reads the same, or a draft that is not empty was kept. -/
  newest : position s₀.history.entries.length keys + 1 = s₀.history.entries.length →
    s₀.history.entries.getLast? = some s₀.prompt ∨
      (s₀.prompt ≠ "" ∧ ¬ AskedTwice s₀.history.entries keys)

/-! ### Where the arrows lead -/

section

variable {len : ℕ} {keys : List Arrow}

theorem position_le (len : ℕ) (keys : List Arrow) : position len keys ≤ len := by
  induction keys with
  | nil => exact le_rfl
  | cons k keys ih =>
      cases k with
      | up => exact (Nat.sub_le _ _).trans ih
      | down => exact min_le_right _ _

theorem position_of_not_mem (h : .up ∉ keys) : position len keys = len := by
  induction keys with
  | nil => rfl
  | cons k keys ih =>
      rw [List.mem_cons, not_or] at h
      cases k with
      | up => exact absurd rfl h.1
      | down => rw [position, ih h.2, Nat.min_eq_right (Nat.le_succ len)]

theorem position_one_up (keys : List Arrow) : position 1 (.up :: keys) = 0 :=
  Nat.sub_eq_zero_of_le (position_le 1 keys)

theorem position_one_down (keys : List Arrow) : position 1 (.down :: keys) = 1 :=
  Nat.min_eq_right (Nat.succ_le_succ (Nat.zero_le _))

end

/-- The line the prompt has to show where the arrows lead. -/
def shown (s₀ : State) (keys : List Arrow) : String :=
  s₀.history.entries[position s₀.history.entries.length keys]?.getD s₀.prompt

/-- The line `temp_prompt` keeps after some arrows. -/
def kept (s₀ : State) (keys : List Arrow) : String :=
  if .up ∉ keys then s₀.tempPrompt
  else if AskedTwice s₀.history.entries keys then s₀.history.entries.getLast?.getD s₀.prompt
  else s₀.prompt

section

variable {s₀ : State} {keys : List Arrow}

theorem shown_of_draft (h : position s₀.history.entries.length keys = s₀.history.entries.length) :
    shown s₀ keys = s₀.prompt := by
  rw [shown, h, List.getElem?_eq_none le_rfl]
  rfl

theorem shown_of_newest
    (h : position s₀.history.entries.length keys + 1 = s₀.history.entries.length) :
    shown s₀ keys = s₀.history.entries.getLast?.getD s₀.prompt := by
  have hplace : s₀.history.entries.length - 1 = position s₀.history.entries.length keys := by omega
  rw [shown, List.getLast?_eq_getElem?, hplace]

/-- `Up` leads to the only entry. -/
theorem newest_of_only {entries : List String} (hone : entries.length = 1) :
    position entries.length (.up :: keys) + 1 = entries.length := by
  rw [hone]
  exact congrArg Nat.succ (position_one_up keys)

/-- Who asked twice for the only entry is at it. -/
theorem AskedTwice.newest {entries : List String} (h : AskedTwice entries keys) :
    position entries.length keys + 1 = entries.length := by
  obtain ⟨hone, before, rfl⟩ := h
  exact newest_of_only hone

theorem not_askedTwice_down {entries : List String} : ¬ AskedTwice entries (.down :: keys) := by
  rintro ⟨-, hprefix⟩
  exact absurd (List.cons_prefix_cons.1 hprefix).1 nofun

theorem kept_of_mem (hup : .up ∈ keys) (htwice : ¬ AskedTwice s₀.history.entries keys) :
    kept s₀ keys = s₀.prompt := by
  rw [kept, if_neg (not_not.2 hup), if_neg htwice]

theorem kept_of_not_mem (hup : .up ∉ keys) : kept s₀ keys = s₀.tempPrompt := by
  rw [kept, if_pos hup]

theorem kept_of_askedTwice (h : AskedTwice s₀.history.entries keys) :
    kept s₀ keys = s₀.history.entries.getLast?.getD s₀.prompt := by
  have hup : .up ∈ keys := h.2.subset List.mem_cons_self
  rw [kept, if_neg (not_not.2 hup), if_pos h]

/-- `Up` shows the entry one back, if there is any. -/
theorem shown_up : shown s₀ (.up :: keys) =
    s₀.history.entries[position s₀.history.entries.length keys - 1]?.getD (shown s₀ keys) := by
  rw [shown, shown, position]
  cases hentry : s₀.history.entries[position s₀.history.entries.length keys - 1]? with
  | some line => rfl
  | none =>
      -- there are no entries
      have hempty := List.getElem?_eq_none_iff.1 hentry
      rw [List.getElem?_eq_none (hempty.trans (Nat.sub_le _ _))]
      rfl

/-- `Up` from the draft, or at the only entry, keeps what is shown. -/
theorem kept_up_of_head (hhead : s₀.history.entries.length = 1 ∨
      position s₀.history.entries.length keys = s₀.history.entries.length) :
    kept s₀ (.up :: keys) = shown s₀ keys := by
  by_cases htwice : AskedTwice s₀.history.entries (.up :: keys)
  · have hnewest : position s₀.history.entries.length keys + 1 = s₀.history.entries.length := by
      obtain ⟨hone, hprefix⟩ := htwice
      obtain ⟨before, rfl⟩ := (List.cons_prefix_cons.1 hprefix).2
      exact newest_of_only hone
    rw [kept_of_askedTwice htwice, shown_of_newest hnewest]
  · have hdraft : position s₀.history.entries.length keys = s₀.history.entries.length := by
      rcases hhead with hone | hplace
      · match keys with
        | [] => rfl
        | .up :: before => exact absurd ⟨hone, List.prefix_append [.up, .up] before⟩ htwice
        | .down :: before => rw [hone, position_one_down]
      · exact hplace
    rw [kept_of_mem List.mem_cons_self htwice, shown_of_draft hdraft]

/-- `Up` behind the head keeps nothing new. -/
theorem kept_up_of_behind (hhead : ¬ (s₀.history.entries.length = 1 ∨
      position s₀.history.entries.length keys = s₀.history.entries.length)) :
    kept s₀ (.up :: keys) = kept s₀ keys := by
  have hmany : ∀ keys, ¬ AskedTwice s₀.history.entries keys :=
    fun _ htwice => hhead (Or.inl htwice.1)
  have hup : .up ∈ keys := by
    by_contra hnone
    exact hhead (Or.inr (position_of_not_mem hnone))
  rw [kept_of_mem List.mem_cons_self (hmany _), kept_of_mem hup (hmany _)]

/-- `Down` leaves what is kept, if it gives the draft back. -/
theorem kept_down (hgives : GivesBack s₀ keys) : kept s₀ (.down :: keys) = kept s₀ keys := by
  by_cases hup : .up ∈ keys
  · rw [kept_of_mem (List.mem_cons_of_mem _ hup) not_askedTwice_down]
    by_cases htwice : AskedTwice s₀.history.entries keys
    · have hsame := (hgives.newest htwice.newest).resolve_right fun hkept => hkept.2 htwice
      rw [kept_of_askedTwice htwice, hsame]
      rfl
    · rw [kept_of_mem hup htwice]
  · rw [kept_of_not_mem hup, kept_of_not_mem (by simp [hup])]

/-- At the newest entry, `Down` shows what is kept, or leaves the entry. -/
theorem given_back_of_newest
    (hnewest : position s₀.history.entries.length keys + 1 = s₀.history.entries.length) :
    (if kept s₀ keys = "" then shown s₀ keys else kept s₀ keys) = s₀.prompt ↔
      GivesBack s₀ keys := by
  have hup : .up ∈ keys := by
    by_contra hnone
    have hdraft := @position_of_not_mem s₀.history.entries.length keys hnone
    omega
  have hne : s₀.history.entries ≠ [] := List.ne_nil_of_length_pos (by omega)
  obtain ⟨entry, hentry⟩ : ∃ entry, s₀.history.entries.getLast? = some entry :=
    ⟨_, List.getLast?_eq_some_getLast hne⟩
  have hgives : GivesBack s₀ keys ↔ entry = s₀.prompt ∨
      (s₀.prompt ≠ "" ∧ ¬ AskedTwice s₀.history.entries keys) := by
    rw [← Option.some_inj, ← hentry]
    exact ⟨fun hgives => hgives.newest hnewest,
      fun hkept => ⟨fun hdraft => absurd hdraft (by omega), fun _ => hkept⟩⟩
  rw [hgives, shown_of_newest hnewest, hentry, Option.getD_some]
  by_cases htwice : AskedTwice s₀.history.entries keys
  · rw [kept_of_askedTwice htwice, hentry, Option.getD_some, ite_self]
    exact (or_iff_left fun hkept => hkept.2 htwice).symm
  · rw [kept_of_mem hup htwice]
    split_ifs with hempty
    · exact (or_iff_left fun hkept => hkept.1 hempty).symm
    · exact iff_of_true rfl (Or.inr ⟨hempty, htwice⟩)

/-- At the draft, `Down` shows what is kept, or leaves the draft. -/
theorem given_back_of_draft
    (hdraft : position s₀.history.entries.length keys = s₀.history.entries.length) :
    (if kept s₀ keys = "" then shown s₀ keys else kept s₀ keys) = s₀.prompt ↔
      GivesBack s₀ keys := by
  have hgives : GivesBack s₀ keys ↔
      (.up ∉ keys → s₀.tempPrompt = "" ∨ s₀.tempPrompt = s₀.prompt) :=
    ⟨fun hgives => hgives.draft hdraft,
      fun hkept => ⟨fun _ => hkept, fun hnewest => absurd hnewest (by omega)⟩⟩
  rw [hgives, shown_of_draft hdraft]
  by_cases hup : .up ∈ keys
  · have htwice : ¬ AskedTwice s₀.history.entries keys := by
      intro htwice
      have hnewest := htwice.newest
      omega
    rw [kept_of_mem hup htwice, ite_self]
    exact iff_of_true rfl fun hnone => absurd hup hnone
  · rw [kept_of_not_mem hup]
    split_ifs with hempty
    · exact iff_of_true rfl fun _ => Or.inl hempty
    · exact ⟨fun heq _ => Or.inr heq, fun hgives => (hgives hup).resolve_left hempty⟩

end

/-- The state after some arrows from one at the head. -/
structure Browsed (s₀ : State) (keys : List Arrow) (s : State) : Prop where
  popup : s.popup.shown = false
  entries : s.history.entries = s₀.history.entries
  offset : s.history.offset =
    if s₀.history.entries.length = 1 then 1 else position s₀.history.entries.length keys
  prompt : s.prompt = shown s₀ keys
  tempPrompt : s.tempPrompt = kept s₀ keys

section

variable {s₀ s : State} {keys : List Arrow}

theorem Browsed.start (hshown : s₀.popup.shown = false)
    (hhead : s₀.history.offsetIsHead = true) : Browsed s₀ [] s₀ where
  popup := hshown
  entries := rfl
  offset := by
    rw [of_decide_eq_true hhead, position]
    split_ifs with hone
    · exact hone
    · rfl
  prompt := by simp [shown, position]
  tempPrompt := by simp [kept]

theorem Browsed.in_range (h : Browsed s₀ keys s) :
    s.history.offset ≤ s.history.entries.length := by
  rw [h.offset, h.entries]
  split_ifs with hone
  · exact hone.ge
  · exact position_le _ _

/-- The head is the draft's place, or the only entry's. -/
theorem Browsed.head_iff (h : Browsed s₀ keys s) : s.history.offsetIsHead = true ↔
    s₀.history.entries.length = 1 ∨
      position s₀.history.entries.length keys = s₀.history.entries.length := by
  rw [History.offsetIsHead, beq_iff_eq, h.offset, h.entries]
  split_ifs with hone
  · exact iff_of_true hone.symm (Or.inl hone)
  · exact (or_iff_right hone).symm

/-- **`Up`** shows the entry one back, and keeps the draft. -/
theorem Browsed.up (h : Browsed s₀ keys s) : Browsed s₀ (.up :: keys) (s.pressed .up) where
  popup := h.popup
  entries := h.entries
  offset := by
    show (if s.history.entries.length = 1 then _ else _) = _
    rw [h.entries, h.offset]
    split_ifs <;> rfl
  prompt := by
    have hback : s.history.offset - 1 = position s₀.history.entries.length keys - 1 := by
      rw [h.offset]
      split_ifs with hone
      · rw [hone, Nat.sub_eq_zero_of_le (position_le 1 keys)]
      · rfl
    show s.history.entries[s.history.offset - 1]?.getD s.prompt = _
    rw [hback, h.entries, h.prompt, shown_up]
  tempPrompt := by
    show (if s.history.offsetIsHead = true then s.prompt else s.tempPrompt) = _
    rw [if_congr h.head_iff rfl rfl, h.prompt, h.tempPrompt]
    split_ifs with hhead
    · exact (kept_up_of_head hhead).symm
    · exact (kept_up_of_behind hhead).symm

/-- **The draft is given back** by a `Down` that finds nothing newer exactly if the keys and
the state before them allow it. -/
theorem Browsed.given_back_iff (h : Browsed s₀ keys s)
    (hend : s₀.history.entries.length ≤ position s₀.history.entries.length keys + 1) :
    (if s.tempPrompt = "" then s.prompt else s.tempPrompt) = s₀.prompt ↔ GivesBack s₀ keys := by
  rw [h.prompt, h.tempPrompt]
  rcases hend.eq_or_lt with hnewest | hdraft
  · exact given_back_of_newest hnewest.symm
  · exact given_back_of_draft ((position_le _ _).antisymm (Nat.lt_succ_iff.1 hdraft))

/-- A `Down` finds nothing newer at the newest entry and behind it. -/
theorem Browsed.nothing_newer_iff (h : Browsed s₀ keys s) :
    s.history.entries[s.history.offset + 1]? = none ↔
      s₀.history.entries.length ≤ position s₀.history.entries.length keys + 1 := by
  rw [List.getElem?_eq_none_iff, h.entries, h.offset]
  split_ifs with hone
  · exact iff_of_true (hone.le.trans (Nat.le_succ 1)) (hone.le.trans (Nat.le_add_left 1 _))
  · exact Iff.rfl

/-- **`Down`** shows the entry one forward, or the draft, where it gives the draft back. -/
theorem Browsed.down (h : Browsed s₀ keys s) (hgives : GivesBack s₀ keys) :
    Browsed s₀ (.down :: keys) (s.pressed .down) where
  popup := h.popup
  entries := h.entries
  offset := by
    show min (s.history.offset + 1) s.history.entries.length = _
    rw [h.entries, h.offset, position]
    split_ifs with hone
    · rw [hone]
      rfl
    · rfl
  prompt := by
    show s.history.entries[s.history.offset + 1]?.getD _ = _
    cases hentry : s.history.entries[s.history.offset + 1]? with
    | none =>
        have hend := h.nothing_newer_iff.1 hentry
        have hdraft : position s₀.history.entries.length (.down :: keys) =
            s₀.history.entries.length := Nat.min_eq_right hend
        rw [shown_of_draft hdraft]
        exact (h.given_back_iff hend).2 hgives
    | some line =>
        have hnewer : position s₀.history.entries.length keys + 1 < s₀.history.entries.length := by
          by_contra hend
          rw [h.nothing_newer_iff.2 (not_lt.1 hend)] at hentry
          exact absurd hentry nofun
        have hplace : s.history.offset = position s₀.history.entries.length keys := by
          rw [h.offset, if_neg (by omega)]
        rw [hplace, h.entries] at hentry
        rw [shown, position, Nat.min_eq_left hnewer.le, hentry]
        rfl
  tempPrompt := by
    show s.tempPrompt = _
    rw [h.tempPrompt, kept_down hgives]

/-- **One `Down`** after some arrows gives the draft back, if it finds nothing newer, exactly
if the keys and the state before them allow it. -/
theorem Browsed.walked_back_iff (h : Browsed s₀ keys s) :
    (WalkedBack ⟨s, .down, s.pressed .down⟩ → (s.pressed .down).prompt = s₀.prompt) ↔
      GivesBack s₀ keys := by
  have hwalked : WalkedBack ⟨s, .down, s.pressed .down⟩ ↔
      s.history.entries[s.history.offset + 1]? = none := by
    rw [WalkedBack, History.nextEntry_eq h.in_range]
    exact ⟨fun hwalked => Option.some.inj hwalked.2.2,
      fun hnone => ⟨rfl, h.popup, congrArg some hnone⟩⟩
  rw [hwalked]
  by_cases hnone : s.history.entries[s.history.offset + 1]? = none
  · have hback : (s.pressed .down).prompt =
        if s.tempPrompt = "" then s.prompt else s.tempPrompt := by
      rw [State.pressed, hnone]
      rfl
    rw [hback, ← h.given_back_iff (h.nothing_newer_iff.1 hnone)]
    exact forall_prop_of_true hnone
  · have hnewer := not_le.1 fun hend => hnone (h.nothing_newer_iff.2 hend)
    refine iff_of_true (fun hnone' => absurd hnone' hnone) ⟨fun hdraft => ?_, fun hnewest => ?_⟩
    · exact absurd hdraft (by omega)
    · exact absurd hnewest (by omega)

end

/-! ### Runs of the arrows -/

section

variable {s₀ s : State} {h : List (Step State Arrow)}

/-- A run of the arrows leaves a popup that is shown, and the offset in range. -/
theorem run_shown (hrun : Run State.Pressed s₀ h s) (hshown : s₀.popup.shown = true) :
    s.popup.shown = true := by
  refine hrun.invariant (fun _ => True) (fun _ s => s.popup.shown = true) hshown ?_
    fun _ _ => trivial
  intro h s k s' _ hs hpressed _
  have hnext := hpressed ⟨"", .done⟩
  rw [State.onInput_arrow_of_shown hs] at hnext
  obtain rfl := congrArg Prod.fst (Option.some.inj hnext)
  cases k with
  | up => exact hs
  | down => exact hs

/-- **Any arrows can be pressed** on a history in range. -/
theorem exists_run (hin : s₀.history.offset ≤ s₀.history.entries.length) (keys : List Arrow) :
    ∃ h s, Run State.Pressed s₀ h s ∧ h.map Step.act = keys ∧
      s.history.offset ≤ s.history.entries.length := by
  induction keys with
  | nil => exact ⟨[], s₀, .nil, rfl, hin⟩
  | cons k keys ih =>
      obtain ⟨h, s, hrun, hkeys, hin⟩ := ih
      by_cases hshown : s.popup.shown = true
      · exact ⟨_, _, hrun.cons fun env => State.onInput_arrow_of_shown hshown env k,
          congrArg (k :: ·) hkeys, hin⟩
      · have hhidden : s.popup.shown = false := Bool.eq_false_of_not_eq_true hshown
        refine ⟨_, _, hrun.cons fun env => State.onInput_arrow hhidden hin env k,
          congrArg (k :: ·) hkeys, ?_⟩
        cases k with
        | up =>
            show (if _ then s.history.offset else s.history.offset - 1) ≤ s.history.entries.length
            split_ifs
            · exact hin
            · exact (Nat.sub_le _ _).trans hin
        | down => exact min_le_right _ _

/-- A `Down` that no popup takes meets the condition, on the arrows before it. -/
def DraftKept (s₀ : State) (h : List (Step State Arrow)) (t : Step State Arrow) : Prop :=
  s₀.popup.shown = false → t.act = .down → GivesBack s₀ (h.map Step.act)

theorem browsed_of_run (hhead : s₀.history.offsetIsHead = true) (hshown : s₀.popup.shown = false)
    (hrun : Run State.Pressed s₀ h s) (hguard : Guarded (DraftKept s₀) h) :
    Browsed s₀ (h.map Step.act) s := by
  refine hrun.history_invariant (DraftKept s₀) (fun h s => Browsed s₀ (h.map Step.act) s)
    (Browsed.start hshown hhead) ?_ hguard
  intro h s k s' _ hs hpressed hkept
  obtain rfl := (State.pressed_iff hs.popup hs.in_range).1 hpressed
  cases k with
  | up => exact hs.up
  | down => exact hs.down (hkept hshown rfl)

/-- **When browsing gives the draft back.**  From a state at the head any arrows can be
pressed; and every `Down` of a run that finds nothing newer leaves the prompt as it was
before, if and only if every `Down` meets its condition on the arrows up to it. -/
theorem draft_given_back_iff (hhead : s₀.history.offsetIsHead = true) :
    (∀ keys, ∃ h s, Run State.Pressed s₀ h s ∧ h.map Step.act = keys) ∧
      ∀ h s, Run State.Pressed s₀ h s →
        ((∀ t ∈ h, WalkedBack t → t.after.prompt = s₀.prompt) ↔ Guarded (DraftKept s₀) h) := by
  constructor
  · intro keys
    have hin : s₀.history.offset ≤ s₀.history.entries.length := (of_decide_eq_true hhead).le
    obtain ⟨h, s, hrun, hkeys, -⟩ := exists_run hin keys
    exact ⟨h, s, hrun, hkeys⟩
  · intro h s hrun
    rw [← guarded_const]
    refine Run.guarded_iff (fun h s k s' hrun hpressed hguard => ?_) hrun
    by_cases hshown : s₀.popup.shown = true
    · have hs := run_shown hrun hshown
      refine iff_of_true (fun hwalked => ?_) fun hhidden => ?_
      · exact absurd (hs.symm.trans hwalked.2.1) (by decide)
      · exact absurd (hshown.symm.trans hhidden) (by decide)
    · have hhidden : s₀.popup.shown = false := Bool.eq_false_of_not_eq_true hshown
      have hs := browsed_of_run hhead hhidden hrun hguard
      obtain rfl := (State.pressed_iff hs.popup hs.in_range).1 hpressed
      cases k with
      | up => exact iff_of_true (fun hwalked => absurd hwalked.1 nofun) fun _ hdown =>
          absurd hdown nofun
      | down =>
          refine hs.walked_back_iff.trans ⟨fun hgives _ _ => hgives, fun hkept => ?_⟩
          exact hkept hhidden rfl

end

/-- One letter typed, `Up`, and `Down`. -/
theorem draft_given_back_iff_typed : ∃ s₀ h s,
    ((State.new (asBytes "a\nb\n") []).bind fun s => s.onInput ⟨"c", .done⟩ (.char 'c')) =
      some (s₀, true) ∧
    Run State.Pressed s₀ h s ∧ h.map Step.act = [.down, .up] ∧
    ∀ t ∈ h, WalkedBack t → t.after.prompt = "c" := by
  have htyped : ((State.new (asBytes "a\nb\n") []).bind fun s =>
      s.onInput ⟨"c", .done⟩ (.char 'c')).any (fun x => x.2 ∧ x.1.history.offsetIsHead = true ∧
        x.1.history.entries = ["a", "b"] ∧ x.1.prompt = "c") = true := by
    decide +kernel
  obtain ⟨⟨s₀, _⟩, htyped, hcheck⟩ := (Option.any_eq_true _ _).1 htyped
  obtain ⟨rfl, hhead, hentries, hprompt⟩ := of_decide_eq_true hcheck
  obtain ⟨hruns, hiff⟩ := draft_given_back_iff hhead
  obtain ⟨h, s, hrun, hkeys⟩ := hruns [.down, .up]
  refine ⟨s₀, h, s, htyped, hrun, hkeys, ?_⟩
  rw [← hprompt]
  refine (hiff h s hrun).2 ?_
  match h, hkeys with
  | [⟨_, .down, _⟩, ⟨_, .up, _⟩], _ =>
      refine ⟨fun _ _ => ⟨fun _ hup => absurd List.mem_cons_self hup, fun _ => Or.inr ?_⟩,
        fun _ hdown => absurd hdown nofun, trivial⟩
      refine ⟨by rw [hprompt]; decide, fun htwice => ?_⟩
      rw [AskedTwice, hentries] at htwice
      exact absurd htwice.1 (by decide)

/-- `Up` and `Down` at the start of the program: the prompt was empty, and shows the newest
entry. -/
theorem empty_draft_not_given_back : ∃ s₀ h s,
    State.new (asBytes "a\nb\n") [] = some s₀ ∧ s₀.history.offsetIsHead = true ∧
    Run State.Pressed s₀ h s ∧ h.map Step.act = [.down, .up] ∧
    s₀.prompt = "" ∧ s.prompt = "b" ∧
    ¬ ∀ t ∈ h, WalkedBack t → t.after.prompt = s₀.prompt := by
  have hstart : (State.new (asBytes "a\nb\n") []).any (fun s₀ =>
      s₀.history.offsetIsHead = true ∧ s₀.popup.shown = false ∧
      (s₀.pressed .up).history.offset ≤ (s₀.pressed .up).history.entries.length ∧
      s₀.prompt = "" ∧ ((s₀.pressed .up).pressed .down).prompt = "b" ∧
      WalkedBack ⟨s₀.pressed .up, .down, (s₀.pressed .up).pressed .down⟩) = true := by
    decide +kernel
  obtain ⟨s₀, hnew, hcheck⟩ := (Option.any_eq_true _ _).1 hstart
  obtain ⟨hhead, hhidden, hin, hprompt, hshows, hwalked⟩ := of_decide_eq_true hcheck
  have hup : s₀.Pressed .up (s₀.pressed .up) := fun env =>
    State.onInput_arrow hhidden (of_decide_eq_true hhead).le env .up
  have hdown : (s₀.pressed .up).Pressed .down ((s₀.pressed .up).pressed .down) := fun env =>
    State.onInput_arrow (s := s₀.pressed .up) hhidden hin env .down
  refine ⟨s₀, _, _, hnew, hhead, (Run.nil.cons hup).cons hdown, rfl, hprompt, hshows, ?_⟩
  intro hall
  have hback := hall _ List.mem_cons_self hwalked
  rw [hshows, hprompt] at hback
  exact absurd hback (by decide)

end Repl
end RaftPlayground
