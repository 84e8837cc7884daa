import Mathlib.Data.List.Forall2
import WhiteSmo.Library.Framing
import WhiteSmo.Server.Data

/-!
# Frames and chunks

A client sends frames: four length bytes, a command and a payload.  The server
receives chunks of that stream, and the buffer of a chunk is what it takes for a
message: `SMOListener` and `Update` look at byte 4 and what is behind it, and nobody
reads the length.
-/

namespace WhiteSmo

/-- A message as the client sends it, at most one buffer long. -/
structure ClientFrame where
  command : UInt8
  payload : Bytes
  fits : payload.length + 5 ≤ 1024

namespace ClientFrame

/-- The bytes on the wire. -/
def bytes (frame : ClientFrame) : Bytes :=
  Framing.frame (Framing.lengthBytes 4) (frame.command :: frame.payload)

/-- The message as it looks in a zero-filled buffer. -/
def message (frame : ClientFrame) : UInt8 × Bytes :=
  (frame.command, Delimited.fill 1019 0 frame.payload)

theorem bytes_eq (frame : ClientFrame) :
    frame.bytes = Framing.lengthBytes 4 (frame.payload.length + 1) ++
      frame.command :: frame.payload := rfl

theorem bytes_length (frame : ClientFrame) : frame.bytes.length = frame.payload.length + 5 := by
  rw [bytes_eq, List.length_append, Framing.lengthBytes_length, List.length_cons]
  omega

theorem bytes_drop_four (frame : ClientFrame) :
    frame.bytes.drop 4 = frame.command :: frame.payload := by
  rw [bytes_eq, List.drop_left' (Framing.lengthBytes_length 4 _)]

/-- A chunk that is one whole frame. -/
def chunk (frame : ClientFrame) : Chunk where
  bytes := frame.bytes
  nonempty := List.ne_nil_of_length_pos (by rw [bytes_length]; omega)
  fits := by rw [bytes_length]; exact frame.fits

end ClientFrame

/-- A way of cutting the stream of `frames` into the chunks that successive
`Receive` calls return. -/
structure Segmentation (frames : List ClientFrame) where
  chunks : List Chunk
  joined : (chunks.map Chunk.bytes).flatten = (frames.map ClientFrame.bytes).flatten

/-- The segmentation in which every `Receive` returns one frame. -/
def Segmentation.whole (frames : List ClientFrame) : Segmentation frames where
  chunks := frames.map ClientFrame.chunk
  joined := by rw [List.map_map]; rfl

/-- The chunk is the frame from its command byte on.  Zeros at the end may be
missing or left over, since the buffer is filled with zeros. -/
def Delivers (chunk : Chunk) (frame : ClientFrame) : Prop :=
  ∃ k, chunk.bytes.drop 4 = frame.command :: frame.payload ++ List.replicate k 0 ∨
    frame.command :: frame.payload = chunk.bytes.drop 4 ++ List.replicate k 0

theorem delivers_iff (chunk : Chunk) (frame : ClientFrame) :
    Delivers chunk frame ↔ (Packet.ofChunk chunk).message = frame.message := by
  have hchunk : Delimited.fill 1020 0 (chunk.bytes.drop 4) =
      (Packet.ofChunk chunk).command :: (Packet.ofChunk chunk).bytes.drop 5 := by
    rw [← Packet.drop_four]
    exact (Delimited.fill_drop 1024 4 0 chunk.bytes).symm
  have hframe : Delimited.fill 1020 0 (frame.command :: frame.payload) =
      frame.command :: Delimited.fill 1019 0 frame.payload := by
    simp [Delimited.fill]
  have hchunkFits : (chunk.bytes.drop 4).length ≤ 1020 := by
    rw [List.length_drop]
    exact Nat.sub_le_sub_right chunk.fits 4
  have hframeFits : (frame.command :: frame.payload).length ≤ 1020 := by
    have hfits := frame.fits
    rw [List.length_cons]
    omega
  rw [Delivers, ← Delimited.fill_eq_fill_iff hchunkFits hframeFits, hchunk, hframe,
    List.cons.injEq, Packet.message, ClientFrame.message, Prod.mk.injEq]

theorem delivers_chunk (frame : ClientFrame) : Delivers frame.chunk frame := by
  refine ⟨0, Or.inl ?_⟩
  rw [ClientFrame.chunk, ClientFrame.bytes_drop_four, List.replicate_zero, List.append_nil]

theorem map_message_eq_iff (chunks : List Chunk) (frames : List ClientFrame) :
    chunks.map (Packet.message ∘ Packet.ofChunk) = frames.map ClientFrame.message ↔
      List.Forall₂ Delivers chunks frames := by
  have hdelivers : Delivers = fun chunk frame =>
      (Packet.message ∘ Packet.ofChunk) chunk = ClientFrame.message frame := by
    funext chunk frame
    exact propext (delivers_iff chunk frame)
  rw [← List.forall₂_eq_eq_eq, List.forall₂_map_left_iff, List.forall₂_map_right_iff, hdelivers]

theorem delivers_whole (frames : List ClientFrame) :
    List.Forall₂ Delivers (Segmentation.whole frames).chunks frames := by
  rw [Segmentation.whole, List.forall₂_map_left_iff, List.forall₂_same]
  exact fun frame _ => delivers_chunk frame

/-- A hello of version 128 with an empty name. -/
def helloFrame : ClientFrame := ⟨2, [128, 0], by decide⟩

def pingFrame : ClientFrame := ⟨0, [], by decide⟩

def helloAndPing : Chunk := ⟨helloFrame.bytes ++ pingFrame.bytes, by decide, by decide⟩

/-- Both frames arrive with the first `Receive`. -/
def coalesced : Segmentation [helloFrame, pingFrame] where
  chunks := [helloAndPing]
  joined := by decide

end WhiteSmo
