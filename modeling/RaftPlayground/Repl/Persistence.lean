/-
# Where the history is kept

`raft-repl/src/persistence.rs`.

A file is its bytes and the position of the next read or write.  `FileBackend::new` opens it
at its start and does not truncate it.  `persist` seeks to the start and writes all lines
over what is there; nothing beyond them changes.  `read_to_string` fails where the bytes are
not UTF-8.

Any call on an open file may fail.  Which ones do is not for the program to say, so it is kept
with the file: `calls` is what becomes of the next of them, and those after it succeed.
-/

import RaftPlayground.Server.Stream
import RaftPlayground.Text.Lines

namespace RaftPlayground
namespace Repl

open Server (Bytes asBytes asBytes_eq)

/-- `Persistence`.  A failed `load` is `none`, a failed `persist` is `false`. -/
class Persistence (A : Type) where
  load : A → A × Option (List String)
  persist : A → List String → A × Bool

/-- `str::lines`. -/
def lines (s : String) : List String := (Text.lines '\n' '\r' s.toList).map String.ofList

/-- The string the bytes encode, if they encode one. -/
def fromUtf8 (bytes : Bytes) : Option String := String.fromUTF8? bytes.toByteArray

/-- What becomes of a call on a file.  A write that fails has written so many bytes by then. -/
inductive Io
  | done
  | failed (written : ℕ)
deriving DecidableEq, Repr

/-- An open file: its bytes, where the next call reads or writes, and what becomes of the calls. -/
structure File where
  content : Bytes
  position : ℕ
  calls : List Io
deriving DecidableEq, Repr

namespace File

/-- `OpenOptions::open`, to read and write. -/
def openAt (content : Bytes) (calls : List Io) : File := { content, position := 0, calls }

/-- What becomes of the next call, and the file for those after it. -/
def call (f : File) : Io × File :=
  match f.calls with
  | [] => (.done, f)
  | io :: calls => (io, { f with calls })

/-- `Read::read_to_string`. -/
def readToString (f : File) : File × Option String :=
  match f.call with
  | (.done, f) => ({ f with position := f.content.length }, fromUtf8 (f.content.drop f.position))
  | (.failed _, f) => (f, none)

/-- `Seek::seek` to `SeekFrom::Start(0)`; `false` is its error. -/
def seekStart (f : File) : File × Bool :=
  match f.call with
  | (.done, f) => ({ f with position := 0 }, true)
  | (.failed _, f) => (f, false)

/-- Bytes are written at the position, over what is there. -/
def write (f : File) (bytes : Bytes) : File :=
  { f with
    content := f.content.take f.position ++ Text.overwrite bytes (f.content.drop f.position)
    position := f.position + bytes.length }

/-- `Write::write_all`; `false` is its error. -/
def writeAll (f : File) (bytes : Bytes) : File × Bool :=
  match f.call with
  | (.done, f) => (f.write bytes, true)
  | (.failed written, f) => (f.write (bytes.take written), false)

/-- A seek and a write do not both succeed. -/
def Refuses (f : File) : Prop := ∃ io ∈ f.calls.take 2, io ≠ .done

instance (f : File) : Decidable f.Refuses := inferInstanceAs (Decidable (∃ io ∈ _, _))

end File

/-- `FileBackend`. -/
structure FileBackend where
  file : File
  buffer : Bytes
deriving DecidableEq, Repr

namespace FileBackend

/-- `FileBackend::new` on a file with the given bytes. -/
def new (content : Bytes) (calls : List Io) : FileBackend :=
  { file := File.openAt content calls, buffer := [] }

/-- `FileBackend::load`. -/
def load (b : FileBackend) : FileBackend × Option (List String) :=
  let (file, buffer) := b.file.readToString
  ({ b with file }, buffer.map lines)

/-- The loop of `persist` over the lines. -/
def persistLoop : Bytes → List String → Bytes
  | buffer, [] => buffer
  | buffer, line :: history => persistLoop (buffer ++ asBytes line ++ [10]) history

/-- `FileBackend::persist`; `false` is the error of a call on the file. -/
def persist (b : FileBackend) (history : List String) : FileBackend × Bool :=
  match b.file.seekStart with
  | (file, false) => ({ b with file }, false)
  | (file, true) =>
    let buffer := persistLoop b.buffer history
    let (file, ok) := file.writeAll buffer
    ({ file, buffer := [] }, ok)

instance : Persistence FileBackend where
  load := load
  persist := persist

end FileBackend

/-- **When a history is stored**: if neither the seek nor the write fails. -/
theorem persist_snd_iff {b : FileBackend} (history : List String) :
    (b.persist history).2 = false ↔ b.file.Refuses := by
  obtain ⟨⟨content, position, calls⟩, buffer⟩ := b
  match calls with
  | [] | [.done] | [.failed _] | .done :: .done :: _ | .done :: .failed _ :: _
  | .failed _ :: .done :: _ | .failed _ :: .failed _ :: _ =>
      simp [FileBackend.persist, File.seekStart, File.writeAll, File.call, File.Refuses]

/-- A history is written over the content of a file whose calls succeed. -/
theorem persist_of_calls {b : FileBackend} (hcalls : b.file.calls = []) (history : List String) :
    b.persist history =
      ({ file := ({ b.file with position := 0 }).write
          (FileBackend.persistLoop b.buffer history), buffer := [] }, true) := by
  obtain ⟨⟨content, position, calls⟩, buffer⟩ := b
  obtain rfl : calls = [] := hcalls
  rfl

/-! ### Strings as bytes -/

section

variable {bytes : Bytes} {s : String}

/-- The bytes encode the string they are the bytes of, and no other. -/
theorem fromUtf8_eq_some : fromUtf8 bytes = some s ↔ asBytes s = bytes := by
  have hbytes : asBytes s = bytes ↔ s.toByteArray = bytes.toByteArray := by
    constructor
    · rintro rfl
      exact ByteArray.ext (by rw [List.data_toByteArray, asBytes])
    · intro h
      rw [asBytes, h, List.data_toByteArray]
  rw [hbytes, fromUtf8, String.fromUTF8?]
  split_ifs with hvalid
  · rw [Option.some.injEq, ← String.toByteArray_inj]
    exact eq_comm
  · exact iff_of_false id fun h => hvalid (h ▸ s.isValidUTF8)

/-- A string whose bytes begin with those of some letters begins with the letters. -/
theorem prefix_of_bytes {text : List Char} {rest : Bytes}
    (h : asBytes s = text.flatMap String.utf8EncodeChar ++ rest) :
    ∃ tail, s.toList = text ++ tail ∧ tail.flatMap String.utf8EncodeChar = rest := by
  rw [asBytes_eq] at h
  have hencoded : text.utf8Encode ++ rest.toByteArray = s.toList.utf8Encode := by
    rw [List.utf8Encode, List.utf8Encode, h, List.toByteArray_append]
  obtain ⟨tail, htail⟩ := List.isPrefix_of_utf8Encode_append_eq_utf8Encode _ hencoded
  refine ⟨tail, htail.symm, ?_⟩
  rw [← htail, List.flatMap_append] at h
  exact List.append_cancel_left h

theorem length_encode (text : List Char) :
    (text.flatMap String.utf8EncodeChar).length = Text.size Char.utf8Size text := by
  induction text with
  | nil => rfl
  | cons c text ih =>
      rw [List.flatMap_cons, List.length_append, ih, String.length_utf8EncodeChar, Text.size]

end

/-- The bytes `persist` writes for some lines. -/
def image (history : List String) : Bytes :=
  (Text.unlines '\n' (history.map String.toList)).flatMap String.utf8EncodeChar

theorem image_append (history new : List String) :
    image (history ++ new) = image history ++ image new := by
  rw [image, List.map_append, Text.unlines_append, List.flatMap_append, image, image]

theorem persistLoop_eq (buffer : Bytes) (history : List String) :
    FileBackend.persistLoop buffer history = buffer ++ image history := by
  induction history generalizing buffer with
  | nil => simp [FileBackend.persistLoop, image, Text.unlines]
  | cons line history ih =>
      have hend : String.utf8EncodeChar '\n' = [10] := by decide
      rw [FileBackend.persistLoop, ih, asBytes_eq]
      simp [image, Text.unlines, hend]

end Repl
end RaftPlayground
