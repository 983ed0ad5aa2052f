/-
# The offset of the history stays in range

The offset is moved in three places, each with its own exceptions: `push` sets it to the
end, but not where `persist` fails, which leaves the new entry behind it; `prev_entry`
takes it back, but not from the only entry nor from the first; `next_entry` takes it
forward, but not from the end.  All of them leave it between the first entry and the end
(`InRange`), from which it follows that neither lookup fails and that what is read is the
entry at the offset, or the only one.
-/

import RaftPlayground.Protocol.Run
import RaftPlayground.Repl.History

namespace RaftPlayground
namespace Repl

open Protocol

/-- A call on a history. -/
inductive Request where
  | push (entry : String)
  | prevEntry
  | nextEntry
deriving DecidableEq, Repr

/-- What a call returns: whether `persist` succeeded, or the entry if there is one. -/
inductive Reply where
  | pushed (ok : Bool)
  | entry (line : Option String)
deriving DecidableEq, Repr

/-- A call and what it returned. -/
structure Call where
  request : Request
  reply : Reply
deriving DecidableEq, Repr

namespace History

variable {A : Type} [Persistence A]

/-- The history handles a call; `none` is a failed `expect`. -/
def handle (h : History A) : Request → Option (History A × Reply)
  | .push entry => some ((h.push entry).1, .pushed (h.push entry).2)
  | .prevEntry => h.prevEntry.map fun x => (x.1, .entry x.2)
  | .nextEntry => h.nextEntry.map fun x => (x.1, .entry x.2)

/-- The call leads from one history to another. -/
def Calls (h : History A) (c : Call) (h' : History A) : Prop :=
  h.handle c.request = some (h', c.reply)

/-- The offset is that of an entry, or the end. -/
def InRange (h : History A) : Prop := h.offset ≤ h.entries.length

end History

/-- `prev_entry` on the only entry, with the offset at the end. -/
def AtOnlyEntry {A : Type} (t : Step (History A) Call) : Prop :=
  t.act.request = .prevEntry ∧ t.before.offset = 1 ∧ t.before.entries.length = 1

/-- What the call read is the only entry, where `prev_entry` does not move from it, and the
entry at the offset otherwise. -/
def ReadsEntry {A : Type} (t : Step (History A) Call) : Prop :=
  ∀ line, t.act.reply = .entry (some line) → line ∈ t.after.entries ∧
    (AtOnlyEntry t → t.after.entries = [line]) ∧
    (¬ AtOnlyEntry t → t.after.entries[t.after.offset]? = some line)

/-- What holds of every sequence of calls on a history. -/
structure Navigable {A : Type} [Persistence A] (h₀ : History A) : Prop where
  /-- The offset stays in range. -/
  inRange : ∀ cs h, Run History.Calls h₀ cs h → h.InRange
  /-- No call fails, after whatever calls. -/
  answers : ∀ cs h, Run History.Calls h₀ cs h → ∀ request,
    ∃ reply h', h.Calls ⟨request, reply⟩ h'
  /-- Every string returned is an entry, and the one at the offset but for the exception. -/
  reads : ∀ cs h, Run History.Calls h₀ cs h → ∀ t ∈ cs, ReadsEntry t

/-- What one call does to a history in range. -/
inductive Called {A : Type} (h : History A) : Call → History A → Prop
  | stored (entry : String) (persistence : A) (new : h.entries.getLast? ≠ some entry) :
    Called h ⟨.push entry, .pushed true⟩
      { h with
        entries := h.entries ++ [entry]
        offset := (h.entries ++ [entry]).length
        persistence
        temp := "" }
  | failed (entry : String) (persistence : A) (new : h.entries.getLast? ≠ some entry) :
    Called h ⟨.push entry, .pushed false⟩
      { h with entries := h.entries ++ [entry], persistence }
  | skipped (entry : String) (same : h.entries.getLast? = some entry) :
    Called h ⟨.push entry, .pushed true⟩ { h with offset := h.entries.length, temp := "" }
  | back (notOnly : ¬(h.offset = 1 ∧ h.entries.length = 1)) :
    Called h ⟨.prevEntry, .entry h.entries[h.offset - 1]?⟩ { h with offset := h.offset - 1 }
  | only (offset : h.offset = 1) (length : h.entries.length = 1) :
    Called h ⟨.prevEntry, .entry h.entries[0]?⟩ h
  | forward :
    Called h ⟨.nextEntry, .entry h.entries[h.offset + 1]?⟩
      { h with offset := min (h.offset + 1) h.entries.length }

section

variable {A : Type} [Persistence A] {h h' h₀ : History A} {c : Call}
  {cs : List (Step (History A) Call)}

/-- **One call** on a history in range. -/
theorem called_of_calls (hin : h.InRange) (hcalls : h.Calls c h') : Called h c h' := by
  obtain ⟨request, reply⟩ := c
  cases request with
  | push entry =>
      obtain ⟨rfl, rfl⟩ := Prod.mk.inj (Option.some.inj hcalls)
      by_cases hnew : h.entries.getLast? ≠ some entry
      · cases hpersist : Persistence.persist h.persistence (h.entries ++ [entry]) with
        | mk persistence ok =>
            rw [History.push_of_persist hnew hpersist]
            cases ok with
            | true => exact .stored entry persistence hnew
            | false => exact .failed entry persistence hnew
      · rw [History.push_of_same (not_not.1 hnew)]
        exact .skipped entry (not_not.1 hnew)
  | prevEntry =>
      by_cases honly : h.offset = 1 ∧ h.entries.length = 1
      · have hfirst : h.offset - 1 = 0 := by omega
        have hstays : h.prevEntry = some (h, h.entries[0]?) := by
          rw [History.prevEntry_eq hin, if_pos honly.2, hfirst]
        rw [History.Calls, History.handle, hstays] at hcalls
        obtain ⟨rfl, rfl⟩ := Prod.mk.inj (Option.some.inj hcalls)
        exact .only honly.1 honly.2
      · have hplace : (if h.entries.length = 1 then h.offset else h.offset - 1) =
            h.offset - 1 := by
          split_ifs with hone
          · -- at the only entry already
            unfold History.InRange at hin
            omega
          · rfl
        rw [History.Calls, History.handle, History.prevEntry_eq hin, hplace] at hcalls
        obtain ⟨rfl, rfl⟩ := Prod.mk.inj (Option.some.inj hcalls)
        exact .back honly
  | nextEntry =>
      rw [History.Calls, History.handle, History.nextEntry_eq hin] at hcalls
      obtain ⟨rfl, rfl⟩ := Prod.mk.inj (Option.some.inj hcalls)
      exact .forward

/-- **One call** on a history in range is answered. -/
theorem exists_calls (hin : h.InRange) (request : Request) :
    ∃ reply h', h.Calls ⟨request, reply⟩ h' := by
  cases request with
  | push entry => exact ⟨_, _, rfl⟩
  | prevEntry => exact ⟨_, _, congrArg (Option.map _) (History.prevEntry_eq hin)⟩
  | nextEntry => exact ⟨_, _, congrArg (Option.map _) (History.nextEntry_eq hin)⟩

omit [Persistence A] in
/-- **One call** leaves the offset in range. -/
theorem Called.inRange (hin : h.InRange) (hcalled : Called h c h') : h'.InRange := by
  cases hcalled with
  | stored | skipped => exact Nat.le_refl _
  | failed entry =>
      -- the entry is there, and the offset where it was
      show h.offset ≤ (h.entries ++ [entry]).length
      rw [List.length_append]
      exact Nat.le_add_right_of_le hin
  | back => exact (Nat.sub_le _ _).trans hin
  | only => exact hin
  | forward => exact Nat.min_le_right _ _

omit [Persistence A] in
/-- **One call** reads the entry at the offset, or the only one. -/
theorem Called.reads (hcalled : Called h c h') : ReadsEntry ⟨h, c, h'⟩ := by
  intro line hline
  cases hcalled with
  | stored | failed | skipped => exact absurd hline nofun
  | back notOnly =>
      have hentry : h.entries[h.offset - 1]? = some line := Reply.entry.inj hline
      exact ⟨List.mem_of_getElem? hentry, fun honly => absurd honly.2 notOnly, fun _ => hentry⟩
  | only offset length =>
      have hentry : h.entries[0]? = some line := Reply.entry.inj hline
      obtain ⟨entry, honly⟩ := List.length_eq_one_iff.1 length
      rw [honly] at hentry
      obtain rfl : entry = line := Option.some.inj hentry
      have hmem : entry ∈ h.entries := honly ▸ List.mem_singleton_self entry
      exact ⟨hmem, fun _ => honly, fun hnot => absurd ⟨rfl, offset, length⟩ hnot⟩
  | forward =>
      have hentry : h.entries[h.offset + 1]? = some line := Reply.entry.inj hline
      have hlt : h.offset + 1 < h.entries.length := (List.getElem?_eq_some_iff.1 hentry).1
      refine ⟨List.mem_of_getElem? hentry, fun honly => absurd honly.1 nofun, fun _ => ?_⟩
      show h.entries[min (h.offset + 1) h.entries.length]? = some line
      rw [Nat.min_eq_left hlt.le, hentry]

/-- **Every run of calls** leaves the offset in range. -/
theorem inRange_of_run (hin : h₀.InRange) (hrun : Run History.Calls h₀ cs h) : h.InRange := by
  refine hrun.invariant (fun _ => True) (fun _ h => h.InRange) hin ?_ fun _ _ => trivial
  intro cs h c h' _ hin hcalls _
  exact (called_of_calls hin hcalls).inRange hin

/-- A history starts at its end. -/
theorem inRange_new {p : A} (hnew : History.new p = some h₀) : h₀.InRange := by
  obtain ⟨entries, _, hsome⟩ := Option.bind_eq_some_iff.1 hnew
  obtain rfl := Option.some.inj hsome
  exact Nat.le_refl _

/-- **The history can be navigated.**  Whatever was loaded, and however the calls of `persist`
turn out: after every sequence of calls the offset is in range, no lookup fails, and a string
that is returned is the entry at the offset, or the only entry. -/
theorem history_navigable {p : A} (hnew : History.new p = some h₀) : Navigable h₀ := by
  have hin := inRange_new hnew
  constructor
  case inRange => exact fun _ _ hrun => inRange_of_run hin hrun
  case answers => exact fun _ _ hrun request => exists_calls (inRange_of_run hin hrun) request
  case reads =>
    intro cs h hrun t ht
    obtain ⟨before, hrun', _, hcalls⟩ := hrun.step_of_mem ht
    exact (called_of_calls (inRange_of_run hin hrun') hcalls).reads

end

/-- Entries to load, and how the next calls of `persist` turn out; all later ones succeed. -/
structure Scripted where
  loaded : List String
  outcomes : List Bool
deriving DecidableEq, Repr

instance : Persistence Scripted where
  load p := (p, some p.loaded)
  persist p _ :=
    match p.outcomes with
    | [] => (p, true)
    | ok :: outcomes => ({ p with outcomes }, ok)

/-- One entry is loaded, and the first string pushed is not written: it is behind the offset. -/
theorem history_navigable_unwritten : ∃ h₀ : History Scripted,
    History.new ⟨["a"], [false]⟩ = some h₀ ∧ (h₀.push "b").2 = false ∧
      (h₀.push "b").1.entries = ["a", "b"] ∧ (h₀.push "b").1.offset = 1 ∧ Navigable h₀ :=
  ⟨_, rfl, rfl, rfl, rfl, history_navigable rfl⟩

end Repl
end RaftPlayground
