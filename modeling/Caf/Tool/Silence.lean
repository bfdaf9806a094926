import Caf.Container.Writer

/-!
# Silent samples

A new file is filled with silent frames block by block. All blocks are pieces of one block of zero
bytes, which is as long as the longest piece.
-/

namespace Caf.Tool

/-- Frames of a full block. -/
def blockFrames : Nat := 4096

/-- The first bytes of `bytes`, as many as `count` says, which have to be there. -/
def firstBytes (bytes : ByteArray) (count : Nat) : Except Defect ByteArray :=
  if count ≤ bytes.size then .ok (bytes.extract 0 count)
  else .error (.pieceBeyondEnd count bytes.size)

/-- The length in bytes of some `frames`. -/
def bytesOf (bytesPerFrame frames : Nat) : Except Error Nat :=
  match multiplyWithin 64 bytesPerFrame frames with
  | .ok n => .ok n
  | .error defect => .error (.defect defect)

/-- Writes one piece of `block`, which has some `frames`. -/
def writePiece (block : ByteArray) (bytesPerFrame frames : Nat) (writer : Writer) :
    EStateM.Result Error Writer Unit :=
  match bytesOf bytesPerFrame frames with
  | .error e => .error e writer
  | .ok count =>
    match firstBytes block count with
    | .error defect => .error (.defect defect) writer
    | .ok piece => Writer.write piece writer

/-- Writes the `remaining` frames, each time as many as `block` can have. -/
def writeBlocks (block : ByteArray) (bytesPerFrame remaining : Nat) (writer : Writer) :
    EStateM.Result Error Writer Unit :=
  if remaining = 0 then .ok () writer
  else
    let frames := min remaining blockFrames
    match writePiece block bytesPerFrame frames writer with
    | .error e writer => .error e writer
    | .ok () writer => writeBlocks block bytesPerFrame (remaining - frames) writer
termination_by remaining
decreasing_by
  simp only [blockFrames]
  omega

/-- Writes silent frames at the cursor of a writer, as many as `frames` says. -/
def writeSilence (frames : Nat) : WriterM Unit := fun writer =>
  let bytesPerFrame := writer.stream.bytesPerFrame
  match bytesOf bytesPerFrame (min blockFrames (max frames 1)) with
  | .error e => .error e writer
  | .ok length => writeBlocks (Store.zeros length) bytesPerFrame frames writer

end Caf.Tool
