import Batsim.Basic

/-!
`WriteBuffer`, through which the output files are written: what reaches the file is what was
appended.
-/

namespace Batsim

open Checked

/-- A `WriteBuffer`. The sizes are those of objects in memory, whose sums fit in a `size_t`. -/
structure WriteBuffer where
  /-- what was written through the stream -/
  file : List UInt8
  bufferSize : Nat
  buffer : List UInt8
  bufferPos : Nat := 0

/-- The characters of a `const char *`, whose number is its `strlen`. -/
def cCharacters (text : List UInt8) : List UInt8 := text.takeWhile fun c => c ≠ 0

namespace WriteBuffer

/-- The constructor. The file is truncated; `memory` is what the new buffer happens to hold. -/
def create (bufferSize : Nat) (memory : List UInt8) : Except String WriteBuffer := do
  xbtAssert (bufferSize > 0) ("Invalid buffer size (" ++ toString bufferSize ++ ")")
  .ok { file := [], bufferSize := bufferSize, buffer := memory }

/-- `memcpy(buffer + pos, text, ...)`, which has to stay in the buffer -/
def copy (b : WriteBuffer) (pos : Nat) (text : List UInt8) : Except String WriteBuffer := do
  xbtAssert (pos + text.length ≤ b.buffer.length) "write past the end of the buffer"
  .ok { b with buffer := b.buffer.take pos ++ text ++ b.buffer.drop (pos + text.length) }

/-- `flush_buffer` -/
def flushBuffer (b : WriteBuffer) : WriteBuffer :=
  { b with file := b.file ++ b.buffer.take b.bufferPos, bufferPos := 0 }

/-- `append_text` -/
def appendText (b : WriteBuffer) (text : List UInt8) : Except String WriteBuffer := do
  let textLength := (cCharacters text).length
  -- is the buffer big enough?
  if b.bufferPos + textLength < b.bufferSize then do
    let copied ← b.copy b.bufferPos (cCharacters text)
    .ok { copied with bufferPos := b.bufferPos + textLength }
  else
    let flushed := b.flushBuffer
    -- does the text fit in the empty buffer?
    if textLength < flushed.bufferSize then do
      let copied ← flushed.copy 0 (cCharacters text)
      .ok { copied with bufferPos := textLength }
    else .ok { flushed with file := flushed.file ++ cCharacters text }

/-- The destructor, which leaves the file. -/
def destroy (b : WriteBuffer) : List UInt8 :=
  if b.bufferPos > 0 then b.flushBuffer.file else b.file

end WriteBuffer

/-- The calls on a `WriteBuffer`. -/
inductive WriteCall where
  | appendText (text : List UInt8)
  | flushBuffer
deriving DecidableEq

namespace WriteCall

def apply (b : WriteBuffer) : WriteCall → Except String WriteBuffer
  | appendText text => b.appendText text
  | flushBuffer => .ok b.flushBuffer

/-- What a call appends. -/
def appended : WriteCall → List UInt8
  | appendText text => cCharacters text
  | flushBuffer => []

end WriteCall

namespace WriteBuffer

/-- The file and what waits in the buffer are `content`; the buffer is not full. -/
structure Holds (b : WriteBuffer) (content : List UInt8) : Prop where
  length_buffer : b.buffer.length = b.bufferSize
  bufferPos_lt : b.bufferPos < b.bufferSize
  content_eq : b.file ++ b.buffer.take b.bufferPos = content

variable {b : WriteBuffer} {content : List UInt8}

theorem copy_eq (pos : Nat) (text : List UInt8) (h : pos + text.length ≤ b.buffer.length) :
    b.copy pos text =
      .ok { b with buffer := b.buffer.take pos ++ text ++ b.buffer.drop (pos + text.length) } := by
  rw [copy, xbtAssert_of h]
  rfl

theorem take_copy {pos : Nat} {text buffer : List UInt8} (h : pos + text.length ≤ buffer.length) :
    (buffer.take pos ++ text ++ buffer.drop (pos + text.length)).take (pos + text.length) =
      buffer.take pos ++ text := by
  have hlength : (buffer.take pos ++ text).length = pos + text.length := by
    rw [List.length_append, List.length_take]
    omega
  exact List.take_left' hlength

theorem length_copy {pos : Nat} {text buffer : List UInt8}
    (h : pos + text.length ≤ buffer.length) :
    (buffer.take pos ++ text ++ buffer.drop (pos + text.length)).length = buffer.length := by
  simp only [List.length_append, List.length_take, List.length_drop]
  omega

theorem Holds.flushBuffer (h : b.Holds content) : b.flushBuffer.Holds content := by
  constructor
  · exact h.length_buffer
  · exact Nat.lt_of_le_of_lt (Nat.zero_le _) h.bufferPos_lt
  · rw [WriteBuffer.flushBuffer, List.take_zero, List.append_nil]
    exact h.content_eq

theorem Holds.appendText (h : b.Holds content) (text : List UInt8) :
    ∃ b', b.appendText text = .ok b' ∧ b'.Holds (content ++ cCharacters text) := by
  have hsize := h.length_buffer
  by_cases hfits : b.bufferPos + (cCharacters text).length < b.bufferSize
  · have hin : b.bufferPos + (cCharacters text).length ≤ b.buffer.length := by omega
    refine ⟨{ b with
      buffer := b.buffer.take b.bufferPos ++ cCharacters text ++
        b.buffer.drop (b.bufferPos + (cCharacters text).length)
      bufferPos := b.bufferPos + (cCharacters text).length }, ?_, ?_⟩
    · rw [WriteBuffer.appendText]
      simp only [if_pos hfits, copy_eq _ _ hin, bind, Except.bind]
    · constructor
      · exact (length_copy hin).trans hsize
      · exact hfits
      · simp only [take_copy hin]
        rw [← List.append_assoc, h.content_eq]
  · have hflushed := h.flushBuffer
    have hfile : b.flushBuffer.file = content := by
      have hcontent := hflushed.content_eq
      rwa [show b.flushBuffer.bufferPos = 0 from rfl, List.take_zero, List.append_nil]
        at hcontent
    by_cases hempty : (cCharacters text).length < b.flushBuffer.bufferSize
    · have hin : 0 + (cCharacters text).length ≤ b.flushBuffer.buffer.length := by
        rw [hflushed.length_buffer]
        omega
      have htake := take_copy hin
      rw [Nat.zero_add] at htake
      refine ⟨{ b.flushBuffer with
        buffer := b.flushBuffer.buffer.take 0 ++ cCharacters text ++
          b.flushBuffer.buffer.drop (0 + (cCharacters text).length)
        bufferPos := (cCharacters text).length }, ?_, ?_⟩
      · rw [WriteBuffer.appendText]
        simp only [if_neg hfits, if_pos hempty, copy_eq _ _ hin, bind, Except.bind]
      · constructor
        · exact (length_copy hin).trans hflushed.length_buffer
        · exact hempty
        · rw [hfile, Nat.zero_add, htake, List.take_zero, List.nil_append]
    · refine ⟨{ b.flushBuffer with file := b.flushBuffer.file ++ cCharacters text }, ?_, ?_⟩
      · rw [WriteBuffer.appendText]
        simp only [if_neg hfits, if_neg hempty]
      · constructor
        · exact hflushed.length_buffer
        · exact hflushed.bufferPos_lt
        · rw [show b.flushBuffer.bufferPos = 0 from rfl, List.take_zero, List.append_nil, hfile]

theorem Holds.apply (h : b.Holds content) (call : WriteCall) :
    ∃ b', call.apply b = .ok b' ∧ b'.Holds (content ++ call.appended) := by
  cases call with
  | appendText text => exact h.appendText text
  | flushBuffer =>
    refine ⟨b.flushBuffer, rfl, ?_⟩
    rw [WriteCall.appended, List.append_nil]
    exact h.flushBuffer

theorem Holds.run (h : b.Holds content) (calls : List WriteCall) :
    ∃ b', forEach WriteCall.apply b calls = .ok b' ∧
      b'.Holds (content ++ calls.flatMap WriteCall.appended) := by
  induction calls generalizing b content with
  | nil =>
    refine ⟨b, rfl, ?_⟩
    rwa [List.flatMap_nil, List.append_nil]
  | cons call calls ih =>
    obtain ⟨b₁, hcall, hb₁⟩ := h.apply call
    obtain ⟨b', hcalls, hb'⟩ := ih hb₁
    refine ⟨b', ?_, ?_⟩
    · rw [forEach_cons, hcall]
      exact hcalls
    · rwa [List.flatMap_cons, ← List.append_assoc]

theorem Holds.destroy_eq (h : b.Holds content) : b.destroy = content := by
  have hcontent := h.content_eq
  unfold destroy
  split
  · exact hcontent
  · next hzero =>
    rwa [Nat.eq_zero_of_not_pos hzero, List.take_zero, List.append_nil] at hcontent

theorem create_holds {bufferSize : Nat} {memory : List UInt8} (hsize : 0 < bufferSize)
    (hmemory : memory.length = bufferSize) :
    ∃ b, create bufferSize memory = .ok b ∧ b.Holds [] := by
  refine ⟨{ file := [], bufferSize := bufferSize, buffer := memory }, ?_, hmemory, hsize, rfl⟩
  rw [create, xbtAssert_of hsize]
  rfl

/-- Whatever was in the memory of the buffer, no call copies past its end, the buffer is never full
after a call, and the file is what was appended. -/
theorem buffered_writing_is_transparent {bufferSize : Nat} {memory : List UInt8}
    (hsize : 0 < bufferSize) (hmemory : memory.length = bufferSize) (calls : List WriteCall) :
    ∃ b b', create bufferSize memory = .ok b ∧ forEach WriteCall.apply b calls = .ok b' ∧
      b'.bufferPos < b'.bufferSize ∧ b'.destroy = calls.flatMap WriteCall.appended := by
  obtain ⟨b, hcreate, hb⟩ := create_holds hsize hmemory
  obtain ⟨b', hrun, hb'⟩ := hb.run calls
  exact ⟨b, b', hcreate, hrun, hb'.bufferPos_lt, hb'.destroy_eq⟩

/-- The three cases of `append_text`, with a buffer of four bytes. -/
theorem three_texts_written :
    ∃ b b', create 4 [9, 9, 9, 9] = .ok b ∧
      forEach WriteCall.apply b
        [.appendText [1, 2, 3, 0], .appendText [4, 5, 0], .appendText [6, 7, 8, 9, 0]] = .ok b' ∧
      b'.bufferPos < b'.bufferSize ∧ b'.destroy = [1, 2, 3, 4, 5, 6, 7, 8, 9] :=
  @buffered_writing_is_transparent 4 [9, 9, 9, 9] (by decide) rfl
    [.appendText [1, 2, 3, 0], .appendText [4, 5, 0], .appendText [6, 7, 8, 9, 0]]

end WriteBuffer

end Batsim
