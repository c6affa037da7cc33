import Remerge.BigEndian
import Remerge.SnapshotTypes

/-!
# Chunk frames

A chunk of a streamed blob travels as one binary frame: a magic word, version,
flags, reserved bytes, sequence, offset, payload size and checksum, and then
the payload. Decoding checks the fields in the order of the source, and what a
client encodes from a payload is decoded to the same header and payload.
-/

set_option autoImplicit false

namespace Remerge.ChunkFrames
open SnapshotTypes BigEndian

def snapshotBlobProtocolVersion : ℕ := 1

def snapshotBlobChunkMagic : Bytes := [82,77,67,72]

def snapshotBlobChunkHeaderLen : ℕ := 36

def snapshotBlobDefaultChunkSizeBytes : ℕ := 10*1024*1024

structure ChunkHeader where
  sequence : ℕ
  offsetBytes : ℕ
  payloadSizeBytes : ℕ
  payloadChecksum : ℕ
  deriving DecidableEq, Repr

inductive ChunkFrameError where
  | frameTooShort (expected actual : ℕ)
  | invalidMagic
  | unsupportedVersion (version : ℕ)
  | unsupportedFlags (flags : ℕ)
  | nonZeroReserved
  | payloadSizeMismatch (declared actual : ℕ)
  | checksumMismatch (expected actual : ℕ)
  deriving DecidableEq, Repr

def ChunkFrameError.message : ChunkFrameError → String
  | .frameTooShort expected actual =>
    s!"chunk frame too short: expected at least {expected} bytes, got {actual}"
  | .invalidMagic => "invalid chunk frame magic"
  | .unsupportedVersion version => s!"unsupported chunk frame version {version}"
  | .unsupportedFlags flags => s!"unsupported chunk frame flags {flags}"
  | .nonZeroReserved => "reserved chunk frame bytes must be zero"
  | .payloadSizeMismatch declared actual =>
    s!"chunk payload size mismatch: header says {declared} bytes, frame has {actual}"
  | .checksumMismatch expected actual =>
    s!"chunk payload checksum mismatch: expected {expected}, got {actual}"

def fromPayload (env : Codecs) (sequence offsetBytes : ℕ) (payload : Bytes) : ChunkHeader :=
  ⟨sequence,offsetBytes,payload.length,env.adler32 payload⟩

def encodeWithPayload (env : Codecs) (header : ChunkHeader) (payload : Bytes) :
    Except ChunkFrameError Bytes :=
  if payload.length ≠ header.payloadSizeBytes then
    .error (.payloadSizeMismatch header.payloadSizeBytes payload.length)
  else if env.adler32 payload ≠ header.payloadChecksum then
    .error (.checksumMismatch header.payloadChecksum (env.adler32 payload))
  else .ok (snapshotBlobChunkMagic++toBytes 1 snapshotBlobProtocolVersion++toBytes 1 0++
    toBytes 2 0++toBytes 8 header.sequence++toBytes 8 header.offsetBytes++
    toBytes 8 header.payloadSizeBytes++toBytes 4 header.payloadChecksum++payload)

def field (start width : ℕ) (frame : Bytes) : ℕ := ofBytes ((frame.drop start).take width)

def decode (env : Codecs) (frame : Bytes) : Except ChunkFrameError (ChunkHeader × Bytes) :=
  if frame.length < snapshotBlobChunkHeaderLen then
    .error (.frameTooShort snapshotBlobChunkHeaderLen frame.length)
  else if frame.take 4 ≠ snapshotBlobChunkMagic then .error .invalidMagic
  else if field 4 1 frame ≠ snapshotBlobProtocolVersion then
    .error (.unsupportedVersion (field 4 1 frame))
  else if field 5 1 frame ≠ 0 then .error (.unsupportedFlags (field 5 1 frame))
  else if field 6 2 frame ≠ 0 then .error .nonZeroReserved
  else
    let header : ChunkHeader := ⟨field 8 8 frame,field 16 8 frame,field 24 8 frame,field 32 4 frame⟩
    let payload := frame.drop snapshotBlobChunkHeaderLen
    if payload.length ≠ header.payloadSizeBytes then
      .error (.payloadSizeMismatch header.payloadSizeBytes payload.length)
    else if env.adler32 payload ≠ header.payloadChecksum then
      .error (.checksumMismatch header.payloadChecksum (env.adler32 payload))
    else .ok (header,payload)

theorem field_append (front rest : Bytes) (width n : ℕ) (hn : n < 256^width) :
    field front.length width (front++(toBytes width n++rest)) = n := by
  rw [field,List.drop_left,List.take_left' (length_toBytes width n),ofBytes_toBytes width n hn]

def framePreamble : Bytes :=
  snapshotBlobChunkMagic++toBytes 1 snapshotBlobProtocolVersion++toBytes 1 0++toBytes 2 0

variable (env : Codecs)

theorem encode_fromPayload (sequence offsetBytes : ℕ) (payload : Bytes) :
    encodeWithPayload env (fromPayload env sequence offsetBytes payload) payload =
      .ok (framePreamble++(toBytes 8 sequence++(toBytes 8 offsetBytes++
        (toBytes 8 payload.length++(toBytes 4 (env.adler32 payload)++payload))))) := by
  simp [encodeWithPayload,fromPayload,framePreamble,List.append_assoc]

theorem encode_mod (sequence offsetBytes : ℕ) (payload : Bytes) :
    encodeWithPayload env (fromPayload env sequence offsetBytes payload) payload =
      encodeWithPayload env (fromPayload env (sequence%256^8) offsetBytes payload) payload := by
  rw [encode_fromPayload,encode_fromPayload,toBytes_mod 8 sequence 8 (Nat.le_refl 8)]

variable {env} {payload frame : Bytes}

theorem decode_encode (env : Codecs) {sequence offsetBytes : ℕ} (hs : sequence < 256^8)
    (ho : offsetBytes < 256^8) (hp : payload.length < 256^8) :
    ∃ frame,
      encodeWithPayload env (fromPayload env sequence offsetBytes payload) payload = .ok frame ∧
      decode env frame = .ok (fromPayload env sequence offsetBytes payload,payload) := by
  refine ⟨_,encode_fromPayload env sequence offsetBytes payload,?_⟩
  generalize hf : framePreamble++(toBytes 8 sequence++(toBytes 8 offsetBytes++
    (toBytes 8 payload.length++(toBytes 4 (env.adler32 payload)++payload)))) = frame
  have hlen : frame.length = 36+payload.length := by
    subst hf
    simp [framePreamble,snapshotBlobChunkMagic]
    omega
  have hmagic : frame.take 4 = snapshotBlobChunkMagic := by
    subst hf
    rfl
  have hversion : field 4 1 frame = snapshotBlobProtocolVersion := by
    subst hf
    rfl
  have hflags : field 5 1 frame = 0 := by
    subst hf
    rfl
  have hreserved : field 6 2 frame = 0 := by
    subst hf
    rfl
  have hsequence : field 8 8 frame = sequence := by
    subst hf
    exact field_append framePreamble _ 8 sequence hs
  have hoffset : field 16 8 frame = offsetBytes := by
    subst hf
    simpa [framePreamble,snapshotBlobChunkMagic] using
      field_append (framePreamble++toBytes 8 sequence) _ 8 offsetBytes ho
  have hsize : field 24 8 frame = payload.length := by
    subst hf
    simpa [framePreamble,snapshotBlobChunkMagic] using
      field_append (framePreamble++toBytes 8 sequence++toBytes 8 offsetBytes) _ 8 payload.length hp
  have hchecksum : field 32 4 frame = env.adler32 payload := by
    subst hf
    simpa [framePreamble,snapshotBlobChunkMagic] using
      field_append (framePreamble++toBytes 8 sequence++toBytes 8 offsetBytes++
        toBytes 8 payload.length) _ 4 (env.adler32 payload) (env.adler32_lt payload)
  have hpayload : frame.drop snapshotBlobChunkHeaderLen = payload := by
    have drops : ∀ front : Bytes, (front++payload).drop front.length = payload := fun front =>
      List.drop_left
    have h := drops (framePreamble++toBytes 8 sequence++toBytes 8 offsetBytes++
      toBytes 8 payload.length++toBytes 4 (env.adler32 payload))
    subst hf
    simpa [framePreamble,snapshotBlobChunkMagic,snapshotBlobChunkHeaderLen] using h
  unfold decode
  rw [if_neg (by rw [hlen,snapshotBlobChunkHeaderLen]; omega),if_neg (not_not.mpr hmagic),
    if_neg (not_not.mpr hversion),if_neg (not_not.mpr hflags),if_neg (not_not.mpr hreserved)]
  simp only [hsequence,hoffset,hsize,hchecksum,hpayload,ne_eq,not_true,if_false]
  rfl

theorem toBytes_field (start width : ℕ) (h : start+width ≤ frame.length) :
    toBytes width (field start width frame) = (frame.drop start).take width := by
  have hlen : ((frame.drop start).take width).length = width := by
    rw [List.length_take,List.length_drop]
    omega
  rw [field]
  nth_rewrite 1 [← hlen]
  exact toBytes_ofBytes _

theorem take_drop_append (frame : Bytes) {start width stop : ℕ} (h : start+width = stop) :
    (frame.drop start).take width++frame.drop stop = frame.drop start := by
  rw [← h,← List.drop_drop,List.take_append_drop]

theorem encode_decode {header : ChunkHeader} (h : decode env frame = .ok (header,payload)) :
    encodeWithPayload env header payload = .ok frame := by
  simp only [decode] at h
  split_ifs at h with hlen hmagic hversion hflags hreserved hsize hsum
  rw [snapshotBlobChunkHeaderLen,not_lt] at hlen
  rw [ne_eq,not_not] at hmagic hversion hflags hreserved
  cases h
  have hparts : frame = frame.take 4++((frame.drop 4).take 1++((frame.drop 5).take 1++
      ((frame.drop 6).take 2++((frame.drop 8).take 8++((frame.drop 16).take 8++
        ((frame.drop 24).take 8++((frame.drop 32).take 4++frame.drop 36))))))) := by
    rw [take_drop_append frame (rfl : 32+4 = 36),take_drop_append frame (rfl : 24+8 = 32),
      take_drop_append frame (rfl : 16+8 = 24),take_drop_append frame (rfl : 8+8 = 16),
      take_drop_append frame (rfl : 6+2 = 8),take_drop_append frame (rfl : 5+1 = 6),
      take_drop_append frame (rfl : 4+1 = 5),List.take_append_drop]
  have hversion' := toBytes_field 4 1 (hlen.trans' (by omega))
  have hflags' := toBytes_field 5 1 (hlen.trans' (by omega))
  have hreserved' := toBytes_field 6 2 (hlen.trans' (by omega))
  rw [hversion] at hversion'
  rw [hflags] at hflags'
  rw [hreserved] at hreserved'
  rw [encodeWithPayload,if_neg hsize,if_neg hsum]
  refine congrArg Except.ok (Eq.trans ?_ hparts.symm)
  simp only [List.append_assoc]
  rw [hmagic,hversion',hflags',hreserved',toBytes_field 8 8 (by omega),
    toBytes_field 16 8 (by omega),toBytes_field 24 8 (by omega),toBytes_field 32 4 (by omega),
    snapshotBlobChunkHeaderLen]

/-- Encoding and decoding are inverse to each other: a frame built from a
payload is read back, and no other frame is read as that chunk. -/
theorem chunk_frames_bijective (env : Codecs) :
    (∀ (sequence offsetBytes : UInt64) (payload : Bytes), payload.length < 2^64 →
      ∃ frame, encodeWithPayload env (fromPayload env sequence.toNat offsetBytes.toNat payload)
          payload = .ok frame ∧
        decode env frame = .ok (fromPayload env sequence.toNat offsetBytes.toNat payload,payload)) ∧
    ∀ (frame payload : Bytes) (header : ChunkHeader), decode env frame = .ok (header,payload) →
      encodeWithPayload env header payload = .ok frame := by
  constructor
  · intro sequence offsetBytes payload hp
    exact decode_encode env sequence.toNat_lt offsetBytes.toNat_lt hp
  · intro frame payload header h
    exact encode_decode h

theorem short_chunk_frame_unique :
    (∃ frame, decode plainCodecs frame = .ok (fromPayload plainCodecs 7 0 [1,2],[1,2])) ∧
      ∀ frame, decode plainCodecs frame = .ok (fromPayload plainCodecs 7 0 [1,2],[1,2]) →
        encodeWithPayload plainCodecs (fromPayload plainCodecs 7 0 [1,2]) [1,2] = .ok frame := by
  obtain ⟨frame,-,hd⟩ := (chunk_frames_bijective plainCodecs).1 7 0 [1,2] (by decide)
  exact ⟨⟨frame,hd⟩,fun frame hd => (chunk_frames_bijective plainCodecs).2 frame [1,2] _ hd⟩

end Remerge.ChunkFrames
