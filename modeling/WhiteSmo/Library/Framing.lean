import Mathlib.Algebra.Group.Nat.Defs
import Mathlib.Data.List.Basic

/-!
# Length-prefixed framing

A stream of bodies, each preceded by a header of `width` bytes that is read as a
big-endian length.  `decode` is the reader: it takes a header, then as many bytes
as the header says, until the stream is used up.

The header is a parameter of the encoder.  `decode_encode_iff` says for an
arbitrary header exactly which sequences the reader recovers, and `lengthBytes`
is the header that works for every body shorter than `256 ^ width`.
-/

namespace WhiteSmo
namespace Framing

/-- The number a header stands for. -/
def readLength (header : List UInt8) : Nat :=
  header.foldl (fun n b => n * 256 + b.toNat) 0

/-- The big-endian header of a length, truncated to `width` bytes. -/
def lengthBytes : Nat → Nat → List UInt8
  | 0, _ => []
  | width + 1, n => lengthBytes width (n / 256) ++ [UInt8.ofNat n]

theorem lengthBytes_length (width n : Nat) : (lengthBytes width n).length = width := by
  induction width generalizing n with
  | zero => rfl
  | succ width ih => simp [lengthBytes, ih]

/-- One header and the body it announces. -/
def takeFrame (width : Nat) (stream : List UInt8) : Option (List UInt8 × List UInt8) :=
  let n := readLength (stream.take width)
  let rest := stream.drop width
  if width ≤ stream.length ∧ n ≤ rest.length then some (rest.take n, rest.drop n) else none

/-- The bodies read while `fuel` frames are allowed. -/
def decodeAux (width : Nat) : Nat → List UInt8 → Option (List (List UInt8))
  | _, [] => some []
  | 0, _ :: _ => none
  | fuel + 1, b :: rest =>
    match takeFrame width (b :: rest) with
    | none => none
    | some (body, rest) => (decodeAux width fuel rest).map (body :: ·)

/-- The reader.  A header takes at least one byte, so a stream of `n` bytes holds
at most `n` frames. -/
def decode (width : Nat) (stream : List UInt8) : Option (List (List UInt8)) :=
  decodeAux width stream.length stream

section

variable {width : Nat}

theorem takeFrame_append {header body rest : List UInt8} (hw : header.length = width)
    (hlen : readLength header = body.length) :
    takeFrame width (header ++ body ++ rest) = some (body, rest) := by
  subst hw
  simp [takeFrame, List.append_assoc, hlen]

theorem takeFrame_length {stream body rest : List UInt8}
    (h : takeFrame width stream = some (body, rest)) :
    body.length = readLength (stream.take width) := by
  unfold takeFrame at h
  simp only at h
  split at h
  · rename_i hle
    cases h
    rw [List.length_take]
    exact Nat.min_eq_left hle.2
  · cases h

theorem takeFrame_shorter (hpos : 0 < width) {stream body rest : List UInt8}
    (h : takeFrame width stream = some (body, rest)) : rest.length < stream.length := by
  unfold takeFrame at h
  simp only at h
  split at h
  · rename_i hle
    cases h
    simp only [List.length_drop] at hle ⊢
    omega
  · cases h

theorem decodeAux_of_length_le (hpos : 0 < width) :
    ∀ (fuel : Nat) (stream : List UInt8), stream.length ≤ fuel →
      decodeAux width fuel stream = decode width stream := by
  intro fuel
  induction fuel using Nat.strongRecOn with
  | _ fuel ih =>
    intro stream hle
    cases stream with
    | nil => cases fuel <;> rfl
    | cons b rest =>
      cases fuel with
      | zero => simp at hle
      | succ fuel =>
        simp only [List.length_cons, Nat.succ_le_succ_iff] at hle
        show decodeAux width (fuel + 1) (b :: rest) = decodeAux width (rest.length + 1) (b :: rest)
        simp only [decodeAux]
        cases h : takeFrame width (b :: rest) with
        | none => rfl
        | some frame =>
          obtain ⟨body, tail⟩ := frame
          have hshort : tail.length ≤ rest.length := by
            simpa using Nat.lt_succ_iff.mp (takeFrame_shorter hpos h)
          simp only
          rw [ih fuel (Nat.lt_succ_self fuel) tail (by omega)]
          by_cases hlt : rest.length = fuel
          · rw [hlt, ih fuel (Nat.lt_succ_self fuel) tail (by omega)]
          · rw [ih rest.length (by omega) tail hshort]

theorem decode_nil : decode width [] = some [] := rfl

/-- Reading a stream that starts with a frame reads that frame first. -/
theorem decode_of_takeFrame (hpos : 0 < width) {stream body rest : List UInt8}
    (h : takeFrame width stream = some (body, rest)) :
    decode width stream = (decode width rest).map (body :: ·) := by
  have hshort := takeFrame_shorter hpos h
  cases stream with
  | nil => simp at hshort
  | cons b tail =>
    show decodeAux width (tail.length + 1) (b :: tail) = _
    simp only [decodeAux, h]
    rw [decodeAux_of_length_le hpos tail.length rest (by simpa using Nat.lt_succ_iff.mp hshort)]

/-- A stream that the reader accepts starts with a frame, unless it is empty. -/
theorem takeFrame_of_decode (hpos : 0 < width) {stream body : List UInt8}
    {bodies : List (List UInt8)} (h : decode width stream = some (body :: bodies)) :
    ∃ rest, takeFrame width stream = some (body, rest) ∧ decode width rest = some bodies := by
  cases hframe : takeFrame width stream with
  | none =>
    cases stream with
    | nil => cases h
    | cons b tail =>
      rw [decode, List.length_cons] at h
      simp [decodeAux, hframe] at h
  | some frame =>
    obtain ⟨first, rest⟩ := frame
    rw [decode_of_takeFrame hpos hframe, Option.map_eq_some_iff] at h
    obtain ⟨tail, htail, hcons⟩ := h
    cases hcons
    exact ⟨rest, rfl, htail⟩

end

section Encode

variable (header : Nat → List UInt8)

/-- A body behind the header of its length. -/
def frame (body : List UInt8) : List UInt8 := header body.length ++ body

/-- Bodies one after another on one stream. -/
def encode (bodies : List (List UInt8)) : List UInt8 := (bodies.map (frame header)).flatten

theorem encode_nil : encode header [] = [] := rfl

theorem encode_cons (body : List UInt8) (bodies : List (List UInt8)) :
    encode header (body :: bodies) = header body.length ++ body ++ encode header bodies := by
  simp [encode, frame]

/-- The reader recovers a sequence of bodies exactly when each header reads as
the length of its body.  At the first header that does not, the body that is
read has another length than the body that was sent. -/
theorem decode_encode_iff {width : Nat} (hpos : 0 < width)
    (hwidth : ∀ n, (header n).length = width) (bodies : List (List UInt8)) :
    decode width (encode header bodies) = some bodies ↔
      ∀ body ∈ bodies, readLength (header body.length) = body.length := by
  induction bodies with
  | nil => simp [encode_nil, decode_nil]
  | cons body bodies ih =>
    rw [encode_cons, List.forall_mem_cons, ← ih]
    constructor
    · intro h
      obtain ⟨rest, hframe, hrest⟩ := takeFrame_of_decode hpos h
      have hlen : readLength (header body.length) = body.length := by
        have := takeFrame_length hframe
        rw [List.append_assoc, List.take_left' (hwidth _)] at this
        exact this.symm
      rw [takeFrame_append (hwidth _) hlen] at hframe
      cases hframe
      exact ⟨hlen, hrest⟩
    · rintro ⟨hlen, hrest⟩
      rw [decode_of_takeFrame hpos (takeFrame_append (hwidth _) hlen), hrest]
      rfl

end Encode

end Framing
end WhiteSmo
