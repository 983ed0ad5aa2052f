/-
# Lines and their ends

A text over any alphabet with an end of line `nl` and a return `cr`.  `lines` reads it as
lines: each ends in `nl`, which a `cr` may precede, and neither belongs to the line; the
last one need not end.  `unlines` writes every line with an `nl` behind it.  So what is
written and read back is the same except for a return at the end of a line
(`lines_unlines_append`), and what is read and written back differs in size by the returns
in front of an `nl` and the end of the last line (`size_unlines_lines`).

`overwrite` is the text a file holds after another one is written over it from the start.
-/

import Mathlib.Data.List.Basic

namespace RaftPlayground
namespace Text

section

variable {α : Type*} [DecidableEq α]

/-- A line without the return at its end. -/
def stripCr (cr : α) (line : List α) : List α :=
  if line.getLast? = some cr then line.dropLast else line

/-- The lines of the text behind the part of a line. -/
def linesLoop (nl cr : α) : List α → List α → List (List α)
  | line, [] => if line.isEmpty then [] else [line]
  | line, c :: cs =>
    if c = nl then stripCr cr line :: linesLoop nl cr [] cs
    else linesLoop nl cr (line ++ [c]) cs

/-- The lines of a text. -/
def lines (nl cr : α) (s : List α) : List (List α) := linesLoop nl cr [] s

/-- The text of some lines, each with an end. -/
def unlines (nl : α) (ls : List (List α)) : List α := ls.flatMap (· ++ [nl])

/-- The number of returns in front of an end of line. -/
def returns (nl cr : α) : List α → ℕ
  | [] => 0
  | c :: s => (if c = cr ∧ s.head? = some nl then 1 else 0) + returns nl cr s

/-- The last line has no end. -/
def Unended (nl : α) (s : List α) : Prop := s ≠ [] ∧ s.getLast? ≠ some nl

instance (nl : α) (s : List α) : Decidable (Unended nl s) := inferInstanceAs (Decidable (_ ∧ _))

variable {nl cr : α}

/-- Only a return at the end is taken away. -/
theorem stripCr_eq_self {line : List α} : stripCr cr line = line ↔ line.getLast? ≠ some cr := by
  rw [stripCr]
  split_ifs with hcr
  · refine iff_of_false (fun heq => ?_) (not_not.2 hcr)
    have hne : line ≠ [] := by
      rintro rfl
      simp at hcr
    have hlen := congrArg List.length heq
    have hpos := List.length_pos_iff.2 hne
    rw [List.length_dropLast] at hlen
    omega
  · exact iff_of_true rfl hcr

/-- A line without an end of line has none after its return is gone. -/
theorem not_mem_stripCr {line : List α} (h : nl ∉ line) : nl ∉ stripCr cr line := by
  rw [stripCr]
  split_ifs
  · exact fun hmem => h ((List.dropLast_sublist line).subset hmem)
  · exact h

/-! ### What is written and read back -/

/-- What has no end of line belongs to the line that is read. -/
theorem linesLoop_append {line xs : List α} (h : nl ∉ xs) (s : List α) :
    linesLoop nl cr line (xs ++ s) = linesLoop nl cr (line ++ xs) s := by
  induction xs generalizing line with
  | nil => rw [List.nil_append, List.append_nil]
  | cons c xs ih =>
      have hc : c ≠ nl := fun heq => h (heq ▸ List.mem_cons_self)
      have hxs : nl ∉ xs := fun hmem => h (List.mem_cons_of_mem c hmem)
      rw [List.cons_append, linesLoop, if_neg hc, ih hxs, List.append_assoc, List.singleton_append]

/-- The first line of a text is what stands in front of the first end. -/
theorem lines_line_append {line : List α} (h : nl ∉ line) (s : List α) :
    lines nl cr (line ++ nl :: s) = stripCr cr line :: lines nl cr s := by
  rw [lines, linesLoop_append h, List.nil_append, linesLoop, if_pos rfl, lines]

/-- **What is written is read back**, but for a return at the end of a line. -/
theorem lines_unlines_append {ls : List (List α)} (h : ∀ l ∈ ls, nl ∉ l) (s : List α) :
    lines nl cr (unlines nl ls ++ s) = ls.map (stripCr cr) ++ lines nl cr s := by
  induction ls with
  | nil => rfl
  | cons l ls ih =>
      rw [List.forall_mem_cons] at h
      have hsplit : unlines nl (l :: ls) ++ s = l ++ nl :: (unlines nl ls ++ s) := by
        simp only [unlines, List.flatMap_cons, List.append_assoc, List.cons_append,
          List.nil_append]
      rw [hsplit, lines_line_append h.1, ih h.2, List.map_cons, List.cons_append]

omit [DecidableEq α] in
/-- Some lines and then others are written one text behind the other. -/
theorem unlines_append (ls ms : List (List α)) :
    unlines nl (ls ++ ms) = unlines nl ls ++ unlines nl ms :=
  List.flatMap_append

/-- No lines come of a text only if nothing was read. -/
theorem linesLoop_eq_nil {line s : List α} :
    linesLoop nl cr line s = [] ↔ line = [] ∧ s = [] := by
  induction s generalizing line with
  | nil =>
      rw [linesLoop]
      split_ifs with hline
      · exact iff_of_true rfl ⟨List.isEmpty_iff.1 hline, rfl⟩
      · exact iff_of_false (by simp) fun h => hline (List.isEmpty_iff.2 h.1)
  | cons c s ih =>
      refine iff_of_false (fun h => ?_) fun h => List.cons_ne_nil c s h.2
      rw [linesLoop] at h
      split_ifs at h
      exact List.append_ne_nil_of_right_ne_nil line (List.cons_ne_nil c []) (ih.1 h).1

/-- Every text but the empty one has a line. -/
theorem lines_eq_nil {s : List α} : lines nl cr s = [] ↔ s = [] :=
  linesLoop_eq_nil.trans (and_iff_right rfl)

/-- The loop puts no end of line into a line. -/
theorem not_mem_linesLoop {line s l : List α} (hline : nl ∉ line)
    (hl : l ∈ linesLoop nl cr line s) : nl ∉ l := by
  induction s generalizing line with
  | nil =>
      rw [linesLoop] at hl
      split_ifs at hl
      · exact absurd hl List.not_mem_nil
      · exact List.mem_singleton.1 hl ▸ hline
  | cons c s ih =>
      rw [linesLoop] at hl
      split_ifs at hl with hc
      · rcases List.mem_cons.1 hl with rfl | hl
        · exact not_mem_stripCr hline
        · exact ih List.not_mem_nil hl
      · refine ih (fun hmem => ?_) hl
        rcases List.mem_append.1 hmem with hmem | hmem
        · exact hline hmem
        · exact hc (List.mem_singleton.1 hmem).symm

/-- No line has an end of line in it. -/
theorem not_mem_of_mem_lines {s l : List α} (hl : l ∈ lines nl cr s) : nl ∉ l :=
  not_mem_linesLoop List.not_mem_nil hl

/-- A function keeps a list exactly if it keeps its members. -/
theorem map_eq_self {β : Type*} {f : β → β} {l : List β} : l.map f = l ↔ ∀ a ∈ l, f a = a := by
  conv_lhs => rhs; rw [← List.map_id l]
  exact List.map_inj_left

/-- **The round trip.**  Lines with some text behind them are read back as they are if and
only if none of them ends in a return and there is no text behind them. -/
theorem lines_unlines_append_eq_iff {ls : List (List α)} (h : ∀ l ∈ ls, nl ∉ l) {s : List α} :
    lines nl cr (unlines nl ls ++ s) = ls ↔ (∀ l ∈ ls, l.getLast? ≠ some cr) ∧ s = [] := by
  rw [lines_unlines_append h]
  constructor
  · intro heq
    have hnone : lines nl cr s = [] := by
      have hlen := congrArg List.length heq
      rw [List.length_append, List.length_map] at hlen
      exact List.length_eq_zero_iff.1 (by omega)
    rw [hnone, List.append_nil, map_eq_self] at heq
    exact ⟨fun l hl => stripCr_eq_self.1 (heq l hl), lines_eq_nil.1 hnone⟩
  · rintro ⟨hcr, rfl⟩
    rw [lines_eq_nil.2 rfl, List.append_nil, map_eq_self]
    exact fun l hl => stripCr_eq_self.2 (hcr l hl)

/-! ### What is read and written back -/

/-- The size of a text, where `w` gives the size of a letter. -/
def size {α : Type*} (w : α → ℕ) : List α → ℕ
  | [] => 0
  | c :: s => w c + size w s

variable {w : α → ℕ}

omit [DecidableEq α] in
/-- The sizes of two texts add up. -/
theorem size_append (s t : List α) : size w (s ++ t) = size w s + size w t := by
  induction s with
  | nil => rw [List.nil_append, size, Nat.zero_add]
  | cons c s ih => rw [List.cons_append, size, size, ih, Nat.add_assoc]

omit [DecidableEq α] in
/-- The size of a text of images, where each letter has the size of its image. -/
theorem size_map {β : Type*} {v : β → ℕ} (f : α → β) (s : List α) :
    size v (s.map f) = size (fun c => v (f c)) s := by
  induction s with
  | nil => rfl
  | cons c s ih => rw [List.map_cons, size, size, ih]

/-- A line is larger than what is left of it by the return at its end. -/
theorem size_stripCr (line : List α) :
    size w (stripCr cr line) + (if line.getLast? = some cr then 1 else 0) * w cr = size w line := by
  rw [stripCr]
  split_ifs with hcr
  · conv_rhs => rw [← List.dropLast_append_getLast? cr hcr]
    rw [size_append, Nat.one_mul]
    rfl
  · rw [Nat.zero_mul, Nat.add_zero]

/-- Without an end of line no return stands in front of one. -/
theorem returns_of_not_mem {s : List α} (h : nl ∉ s) : returns nl cr s = 0 := by
  induction s with
  | nil => rfl
  | cons c s ih =>
      have hs : nl ∉ s := fun hmem => h (List.mem_cons_of_mem c hmem)
      have hhead : s.head? ≠ some nl := fun heq => hs (List.mem_of_mem_head? heq)
      rw [returns, if_neg fun hc => hhead hc.2, ih hs]

/-- The returns of a text are that of its first line and those of the others. -/
theorem returns_line_append (hne : cr ≠ nl) {line : List α} (h : nl ∉ line) (s : List α) :
    returns nl cr (line ++ nl :: s) =
      (if line.getLast? = some cr then 1 else 0) + returns nl cr s := by
  induction line with
  | nil =>
      rw [List.nil_append, returns, if_neg fun hc => hne hc.1.symm]
      rfl
  | cons c line ih =>
      have hline : nl ∉ line := fun hmem => h (List.mem_cons_of_mem c hmem)
      rw [List.cons_append, returns, ih hline]
      cases line with
      | nil => simp
      | cons d line =>
          have hd : d ≠ nl := fun heq => hline (heq ▸ List.mem_cons_self)
          simp [hd]

omit [DecidableEq α] in
/-- Whether the last line has an end is told behind the first one. -/
theorem unended_line_append {line s : List α} : Unended nl (line ++ nl :: s) ↔ Unended nl s := by
  cases s with
  | nil => simp [Unended]
  | cons c s => simp [Unended, List.getLast?_append]

omit [DecidableEq α] in
/-- A line is written as itself and an end. -/
theorem size_unlines_cons (line : List α) (ls : List (List α)) :
    size w (unlines nl (line :: ls)) = size w line + w nl + size w (unlines nl ls) := by
  have hline : unlines nl (line :: ls) = line ++ nl :: unlines nl ls := by
    simp only [unlines, List.flatMap_cons, List.append_assoc, List.cons_append, List.nil_append]
  rw [hline, size_append, size, Nat.add_assoc]

omit [DecidableEq α] in
/-- Every line takes its size and an end. -/
theorem size_unlines (ls : List (List α)) :
    size w (unlines nl ls) = size (fun l => size w l + w nl) ls := by
  induction ls with
  | nil => rfl
  | cons l ls ih => rw [size_unlines_cons, ih, size]

/-- The size of what the loop reads and what is written of it. -/
theorem size_unlines_linesLoop (hne : cr ≠ nl) {line : List α} (h : nl ∉ line) (s : List α) :
    size w (line ++ s) + (if Unended nl (line ++ s) then w nl else 0) =
      size w (unlines nl (linesLoop nl cr line s)) + returns nl cr (line ++ s) * w cr := by
  induction s generalizing line with
  | nil =>
      rw [List.append_nil, linesLoop, returns_of_not_mem h]
      cases line with
      | nil => simp [Unended, unlines, size]
      | cons c line =>
          have hlast : Unended nl (c :: line) :=
            ⟨List.cons_ne_nil c line, fun heq => h (List.mem_of_getLast? heq)⟩
          have hone : size w (unlines nl []) = 0 := rfl
          rw [if_pos hlast, if_neg (by simp), size_unlines_cons, hone]
          omega
  | cons c s ih =>
      rw [linesLoop]
      by_cases hc : c = nl
      · subst hc
        have hrest := @ih [] List.not_mem_nil
        have hstrip : size w (stripCr cr line) +
            (if line.getLast? = some cr then 1 else 0) * w cr = size w line := size_stripCr line
        rw [List.nil_append] at hrest
        rw [if_pos rfl, size_unlines_cons, returns_line_append hne h, size_append, size,
          Nat.add_mul]
        simp only [unended_line_append]
        omega
      · have hline : nl ∉ line ++ [c] := by
          rw [List.mem_append, List.mem_singleton]
          exact fun hmem => hmem.elim h fun heq => hc heq.symm
        have happ : line ++ c :: s = (line ++ [c]) ++ s := by
          rw [List.append_assoc, List.singleton_append]
        rw [if_neg hc, happ]
        exact ih hline

/-- **What is read and written back** is smaller by the returns in front of an end of line,
and larger by the end of the last line where that had none. -/
theorem size_unlines_lines (hne : cr ≠ nl) (s : List α) :
    size w s + (if Unended nl s then w nl else 0) =
      size w (unlines nl (lines nl cr s)) + returns nl cr s * w cr :=
  size_unlines_linesLoop hne List.not_mem_nil s

end

/-! ### Writing over -/

section

variable {α : Type*}

/-- What is left of a text when another one is written over it from the start. -/
def overwrite (written old : List α) : List α := written ++ old.drop written.length

/-- A text that is not longer leaves no trace under the next one. -/
theorem overwrite_overwrite {a b : List α} (h : a.length ≤ b.length) (old : List α) :
    overwrite b (overwrite a old) = overwrite b old := by
  rw [overwrite, overwrite, overwrite, List.drop_append, List.drop_eq_nil_of_le h,
    List.nil_append, List.drop_drop]
  congr 2
  omega

end

end Text
end RaftPlayground
