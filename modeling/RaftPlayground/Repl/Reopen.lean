/-
# The history file, written and opened again

A history writes its entries over the file it was opened from, from the start and without
truncating it.  What it reads next time are the lines it wrote, and those of whatever the
old content had beyond them.  The old content is longer than its lines written back only by
the returns it had in front of its ends of line, so it sticks out if there were more of
these than what was stored since takes.

A line that ends in a return, which `str::lines` leaves where two returns stand in front of
the end or one at the end of the file, loses it when it is written and read back.
-/

import RaftPlayground.Repl.History

namespace RaftPlayground
namespace Repl

open Server (Bytes asBytes asBytes_eq)

/-- The string ends in a carriage return. -/
def EndsInCr (s : String) : Prop := s.toList.getLast? = some '\r'

instance (s : String) : Decidable (EndsInCr s) := inferInstanceAs (Decidable (_ = _))

/-- The string is one line, as it is read. -/
def IsLine (s : String) : Prop := '\n' ∉ s.toList ∧ ¬ EndsInCr s

instance (s : String) : Decidable (IsLine s) := inferInstanceAs (Decidable (_ ∧ _))

/-- The pushes one after the other. -/
def pushAll {A : Type} [Persistence A] : History A → List String → History A
  | h, [] => h
  | h, entry :: entries => pushAll (h.push entry).1 entries

/-- Of the strings pushed behind the last entry, those that are stored: not the same as the
one before. -/
def stored : Option String → List String → List String
  | _, [] => []
  | last, entry :: entries =>
    if last = some entry then stored last entries else entry :: stored (some entry) entries

/-- A history opened from the bytes in the file has the entries in memory. -/
def Reopens (h : History FileBackend) : Prop :=
  (fileBackedHistory h.persistence.file.content []).map History.entries = some h.entries

instance (h : History FileBackend) : Decidable (Reopens h) := inferInstanceAs (Decidable (_ = _))

/-- The content of the file before, and what was stored since, for which the file holds
the entries afterwards. -/
structure Covered (content : String) (new : List String) : Prop where
  /-- No line of the content ends in a return. -/
  plain : ∀ l ∈ lines content, ¬ EndsInCr l
  /-- There are no more returns in front of its ends of line than what was stored takes,
  with an end for each, and the end the last line of the content may lack. -/
  short : Text.returns '\n' '\r' content.toList ≤
    Text.size (fun s => (asBytes s).length + 1) new +
      if Text.Unended '\n' content.toList then 1 else 0

section

variable {content : String} {history : List String} {old : Bytes}

theorem not_mem_of_mem_lines {l : String} (h : l ∈ lines content) : '\n' ∉ l.toList := by
  obtain ⟨line, hline, rfl⟩ := List.mem_map.1 h
  rw [String.toList_ofList]
  exact Text.not_mem_of_mem_lines hline

theorem map_toList_lines : (lines content).map String.toList =
    Text.lines '\n' '\r' content.toList := by
  rw [lines, List.map_map, String.toList_comp_ofList, List.map_id]

theorem lines_eq_iff :
    lines content = history ↔ Text.lines '\n' '\r' content.toList = history.map String.toList := by
  rw [← map_toList_lines]
  exact (List.map_inj_right fun _ _ => String.toList_injective).symm

/-- **What is written over a file and read again** are the lines written, if and only if none
of them ends in a return and the old content is not longer. -/
theorem read_overwrite_iff (hlines : ∀ l ∈ history, '\n' ∉ l.toList) :
    (fromUtf8 (Text.overwrite (image history) old)).map lines = some history ↔
      (∀ l ∈ history, ¬ EndsInCr l) ∧ old.length ≤ (image history).length := by
  have hchars : ∀ l ∈ history.map String.toList, '\n' ∉ l := List.forall_mem_map.2 hlines
  have hround : ∀ tail : List Char,
      Text.lines '\n' '\r' (Text.unlines '\n' (history.map String.toList) ++ tail) =
          history.map String.toList ↔
        (∀ l ∈ history, ¬ EndsInCr l) ∧ tail = [] := by
    intro tail
    rw [Text.lines_unlines_append_eq_iff hchars, List.forall_mem_map]
    rfl
  rw [Option.map_eq_some_iff]
  constructor
  · rintro ⟨s, hs, hread⟩
    obtain ⟨tail, htail, hrest⟩ := prefix_of_bytes (fromUtf8_eq_some.1 hs)
    rw [lines_eq_iff, htail, hround] at hread
    obtain ⟨hcr, rfl⟩ := hread
    exact ⟨hcr, List.drop_eq_nil_iff.1 hrest.symm⟩
  · rintro ⟨hcr, hshort⟩
    refine ⟨String.ofList (Text.unlines '\n' (history.map String.toList)), ?_, ?_⟩
    · rw [fromUtf8_eq_some, asBytes_eq, String.toList_ofList, Text.overwrite,
        List.drop_eq_nil_of_le hshort, List.append_nil, image]
    · rw [lines_eq_iff, String.toList_ofList]
      have hall := (hround []).2 ⟨hcr, rfl⟩
      rwa [List.append_nil] at hall

/-- The old content is not longer than its lines and those stored behind them exactly if its
returns are covered. -/
theorem length_le_image_iff (new : List String) :
    (asBytes content).length ≤ (image (lines content ++ new)).length ↔
      Text.returns '\n' '\r' content.toList ≤
        Text.size (fun s => (asBytes s).length + 1) new +
          if Text.Unended '\n' content.toList then 1 else 0 := by
  have hcontent := Text.size_unlines_lines (w := Char.utf8Size) (by decide : '\r' ≠ '\n')
    content.toList
  have hnew : Text.size Char.utf8Size (Text.unlines '\n' (new.map String.toList)) =
      Text.size (fun s => (asBytes s).length + 1) new := by
    rw [Text.size_unlines, Text.size_map]
    congr 1
    funext s
    rw [asBytes_eq, length_encode]
    rfl
  have hend : '\n'.utf8Size = 1 := by decide
  have hreturn : '\r'.utf8Size = 1 := by decide
  rw [hend, hreturn, Nat.mul_one] at hcontent
  rw [image, List.map_append, Text.unlines_append, map_toList_lines, asBytes_eq, length_encode,
    length_encode, Text.size_append, hnew]
  omega

end

/-! ### A run of pushes -/

/-- The history was opened from the bytes with the entries `loaded`, and has stored `new`. -/
structure Kept (content : Bytes) (loaded new : List String) (h : History FileBackend) : Prop where
  entries : h.entries = loaded ++ new
  buffer : h.persistence.buffer = []
  calls : h.persistence.file.calls = []
  file : h.persistence.file.content =
    if new = [] then content else Text.overwrite (image (loaded ++ new)) content

section

variable {content : Bytes} {loaded new : List String} {h : History FileBackend}

/-- A string that is not the last entry is stored, and the file written again. -/
theorem Kept.store (hk : Kept content loaded new h) {entry : String}
    (hentry : h.entries.getLast? ≠ some entry) :
    Kept content loaded (new ++ [entry]) (h.push entry).1 := by
  have hpush : (h.push entry).1.entries = h.entries ++ [entry] ∧
      (h.push entry).1.persistence = (h.persistence.persist (h.entries ++ [entry])).1 := by
    have hstored := persist_of_calls hk.calls (h.entries ++ [entry])
    rw [History.push_of_persist hentry hstored, hstored]
    exact ⟨rfl, rfl⟩
  have hentries : h.entries ++ [entry] = loaded ++ (new ++ [entry]) := by
    rw [hk.entries, List.append_assoc]
  constructor
  case entries => rw [hpush.1, hentries]
  case buffer => rw [hpush.2, persist_of_calls hk.calls]
  case calls =>
    rw [hpush.2, persist_of_calls hk.calls]
    exact hk.calls
  case file =>
    rw [if_neg (by simp), hpush.2, persist_of_calls hk.calls, hk.buffer, persistLoop_eq, hentries]
    show [] ++ Text.overwrite ([] ++ image _) h.persistence.file.content = _
    rw [List.nil_append, List.nil_append, hk.file]
    split_ifs with hnone
    · rfl
    · -- the image only grows
      refine Text.overwrite_overwrite ?_ content
      rw [← List.append_assoc, image_append (loaded ++ new), List.length_append]
      exact Nat.le_add_right _ _

/-- A string that is the last entry is not stored. -/
theorem Kept.skip (hk : Kept content loaded new h) {entry : String}
    (hentry : h.entries.getLast? = some entry) : Kept content loaded new (h.push entry).1 := by
  rw [History.push_of_same hentry]
  exact ⟨hk.entries, hk.buffer, hk.calls, hk.file⟩

/-- **A run of pushes** stores those that are not the same as the one before. -/
theorem Kept.pushAll (hk : Kept content loaded new h) (pushes : List String) :
    Kept content loaded (new ++ stored h.entries.getLast? pushes) (pushAll h pushes) := by
  induction pushes generalizing h new with
  | nil =>
      rw [stored, List.append_nil]
      exact hk
  | cons entry pushes ih =>
      rw [stored, Repl.pushAll]
      split_ifs with hentry
      · have hrest := ih (hk.skip hentry)
        rwa [(hk.skip hentry).entries, ← hk.entries] at hrest
      · have hrest := ih (hk.store hentry)
        have hlast : (h.push entry).1.entries.getLast? = some entry := by
          rw [(hk.store hentry).entries, ← List.append_assoc, List.getLast?_concat]
        rwa [hlast, List.append_assoc] at hrest

end

theorem mem_of_mem_stored {last : Option String} {pushes : List String} {s : String}
    (hs : s ∈ stored last pushes) : s ∈ pushes := by
  induction pushes generalizing last with
  | nil => exact absurd hs List.not_mem_nil
  | cons entry pushes ih =>
      rw [stored] at hs
      split_ifs at hs
      · exact List.mem_cons_of_mem _ (ih hs)
      · rcases List.mem_cons.1 hs with rfl | hs
        · exact List.mem_cons_self
        · exact List.mem_cons_of_mem _ (ih hs)

/-- A file of a string can be opened, and has its lines. -/
theorem exists_fileBackedHistory (content : String) :
    ∃ h, fileBackedHistory (asBytes content) [] = some h ∧
      Kept (asBytes content) (lines content) [] h := by
  have hload : Persistence.load (FileBackend.new (asBytes content) []) =
      ((FileBackend.new (asBytes content) []).load.1, some (lines content)) := by
    show (_, (fromUtf8 (asBytes content)).map lines) = _
    rw [fromUtf8_eq_some.2 rfl]
    rfl
  rw [fileBackedHistory, History.new, hload]
  exact ⟨_, rfl, (List.append_nil _).symm, rfl, rfl, rfl⟩

theorem map_entries_fileBackedHistory (content : Bytes) :
    (fileBackedHistory content []).map History.entries = (fromUtf8 content).map lines := by
  have hload : Persistence.load (FileBackend.new content []) =
      ((FileBackend.new content []).load.1, (fromUtf8 content).map lines) := rfl
  rw [fileBackedHistory, History.new, hload]
  cases fromUtf8 content with
  | none => rfl
  | some s => rfl

/-- **When the history file is read back as it was kept in memory.**  After pushes of lines
of which one was stored, if and only if no line of the content before ends in a return, and
what was stored covers its returns. -/
theorem history_round_trip_iff {content : String} {pushes : List String}
    (hlines : ∀ p ∈ pushes, IsLine p)
    (hstored : stored (lines content).getLast? pushes ≠ []) :
    ∃ h, fileBackedHistory (asBytes content) [] = some h ∧ h.entries = lines content ∧
      (Reopens (pushAll h pushes) ↔
        Covered content (stored (lines content).getLast? pushes)) := by
  obtain ⟨h, hopen, hk⟩ := exists_fileBackedHistory content
  have hloaded : h.entries = lines content := by rw [hk.entries, List.append_nil]
  refine ⟨h, hopen, hloaded, ?_⟩
  have hkept := hk.pushAll pushes
  rw [List.nil_append, hloaded] at hkept
  have hnl : ∀ l ∈ lines content ++ stored (lines content).getLast? pushes, '\n' ∉ l.toList := by
    intro l hl
    rcases List.mem_append.1 hl with hl | hl
    · exact not_mem_of_mem_lines hl
    · exact (hlines l (mem_of_mem_stored hl)).1
  rw [Reopens, map_entries_fileBackedHistory, hkept.file, if_neg hstored, hkept.entries,
    read_overwrite_iff hnl, length_le_image_iff]
  constructor
  · rintro ⟨hcr, hshort⟩
    exact ⟨fun l hl => hcr l (List.mem_append_left _ hl), hshort⟩
  · rintro ⟨hplain, hshort⟩
    refine ⟨fun l hl => ?_, hshort⟩
    rcases List.mem_append.1 hl with hl | hl
    · exact hplain l hl
    · exact (hlines l (mem_of_mem_stored hl)).2

/-- The last of two lines has no end: it is entered once more, and another one behind it. -/
theorem history_round_trip_iff_unended :
    ∃ h, fileBackedHistory (asBytes "a\nb") [] = some h ∧ Reopens (pushAll h ["b", "c"]) := by
  obtain ⟨h, hopen, _, hiff⟩ := @history_round_trip_iff "a\nb" ["b", "c"] (by decide)
    (by decide)
  exact ⟨h, hopen, hiff.2 ⟨by decide, by decide⟩⟩

/-- Three lines with returns, and one stored behind them: the last end of line of the old
content sticks out, and is read as a fifth, empty line. -/
theorem old_end_read_again : ∃ h, fileBackedHistory (asBytes "a\r\nb\r\nc\r\n") [] = some h ∧
    (pushAll h ["x"]).entries = ["a", "b", "c", "x"] ∧
    (fileBackedHistory (pushAll h ["x"]).persistence.file.content []).map History.entries =
      some ["a", "b", "c", "x", ""] ∧ ¬ Reopens (pushAll h ["x"]) := by
  have hopens : (fileBackedHistory (asBytes "a\r\nb\r\nc\r\n") []).any (fun h =>
      (pushAll h ["x"]).entries = ["a", "b", "c", "x"] ∧
        (fileBackedHistory (pushAll h ["x"]).persistence.file.content []).map History.entries =
          some ["a", "b", "c", "x", ""] ∧ ¬ Reopens (pushAll h ["x"])) = true := by
    decide +kernel
  obtain ⟨h, hopen, hcheck⟩ := (Option.any_eq_true _ _).1 hopens
  exact ⟨h, hopen, of_decide_eq_true hcheck⟩

end Repl
end RaftPlayground
