import Remerge.RustText
import Remerge.UploadHandler

/-!
# The client's side of a blob upload

`stream_upload_blob` opens a connection, announces the blob, and sends one chunk
after the other, each after the acknowledgement of the last. Between two frames
of the server the client is in a phase; a frame of the server moves it on and
makes it send at most one frame.
-/

set_option autoImplicit false

namespace Remerge.BlobUploadClient
open RustText SnapshotTypes SnapshotStore ChunkFrames UploadSessions UploadHandler

def minChunkSizeBytes : ℕ := 256*1024

def growAfterHealthyAcks : ℕ := 2

/-- `SnapshotBlobChunkPolicy`. -/
structure ChunkPolicy where
  currentChunkSizeBytes : ℕ
  maxChunkSizeBytes : ℕ
  minChunkSizeBytes : ℕ
  healthyAckStreak : ℕ
  deriving DecidableEq, Repr

namespace ChunkPolicy

def new (maxChunkSizeBytes : ℕ) : ChunkPolicy :=
  ⟨maxChunkSizeBytes,maxChunkSizeBytes,
    min BlobUploadClient.minChunkSizeBytes (max maxChunkSizeBytes 1),0⟩

def chunkSizeForRemaining (p : ChunkPolicy) (remainingBytes : ℕ) : ℕ :=
  min p.currentChunkSizeBytes (max remainingBytes 1)

def shrink (p : ChunkPolicy) : ChunkPolicy :=
  { p with currentChunkSizeBytes := max (p.currentChunkSizeBytes/2) p.minChunkSizeBytes }

def grow (p : ChunkPolicy) : ChunkPolicy :=
  { p with
    currentChunkSizeBytes :=
      max (min (p.currentChunkSizeBytes*2) p.maxChunkSizeBytes) p.minChunkSizeBytes }

def onAck (p : ChunkPolicy) (slow : Bool) : ChunkPolicy :=
  if slow then { p.shrink with healthyAckStreak := 0 }
  else if growAfterHealthyAcks ≤ p.healthyAckStreak+1 then { p.grow with healthyAckStreak := 0 }
  else { p with healthyAckStreak := p.healthyAckStreak+1 }

def onReconnect (p : ChunkPolicy) : ChunkPolicy := { p.shrink with healthyAckStreak := 0 }

/-- Chunks are neither empty nor larger than announced. -/
structure Fits (p : ChunkPolicy) : Prop where
  positive : 0 < p.minChunkSizeBytes
  bounded : p.minChunkSizeBytes ≤ p.maxChunkSizeBytes
  lower : p.minChunkSizeBytes ≤ p.currentChunkSizeBytes
  upper : p.currentChunkSizeBytes ≤ p.maxChunkSizeBytes
  maximum : p.maxChunkSizeBytes = snapshotBlobDefaultChunkSizeBytes

theorem fits_new : Fits (new snapshotBlobDefaultChunkSizeBytes) := by
  constructor <;> decide

variable {p : ChunkPolicy}

theorem Fits.shrink (h : p.Fits) : p.shrink.Fits := by
  obtain ⟨h1,h2,h3,h4,h5⟩ := h
  constructor <;> simp only [ChunkPolicy.shrink] <;> omega

theorem Fits.grow (h : p.Fits) : p.grow.Fits := by
  obtain ⟨h1,h2,h3,h4,h5⟩ := h
  constructor <;> simp only [ChunkPolicy.grow] <;> omega

theorem Fits.streak (h : p.Fits) (n : ℕ) : Fits { p with healthyAckStreak := n } :=
  ⟨h.positive,h.bounded,h.lower,h.upper,h.maximum⟩

theorem Fits.onAck (h : p.Fits) (slow : Bool) : (p.onAck slow).Fits := by
  unfold ChunkPolicy.onAck
  split
  · exact h.shrink.streak 0
  · split
    · exact h.grow.streak 0
    · exact h.streak _

theorem Fits.onReconnect (h : p.Fits) : p.onReconnect.Fits :=
  h.shrink.streak 0

theorem Fits.chunk (h : p.Fits) {remaining : ℕ} (hr : 0 < remaining) :
    0 < p.chunkSizeForRemaining remaining ∧ p.chunkSizeForRemaining remaining ≤ remaining ∧
      p.chunkSizeForRemaining remaining ≤ snapshotBlobDefaultChunkSizeBytes := by
  obtain ⟨h1,h2,h3,h4,h5⟩ := h
  unfold chunkSizeForRemaining
  omega

end ChunkPolicy

/-- `SnapshotBlobUploadPayload`. -/
structure UploadPayload where
  rawBytes : Bytes
  zstdBytes : Option Bytes
  offeredEncodings : List EncodingOffer

def prepareUploadPayload (env : Codecs) (bytes : Bytes) : UploadPayload :=
  match encodeZstdIfWorthwhile env bytes with
  | some compressed =>
    ⟨bytes,some compressed,[⟨snapshotBlobEncodingZstd,compressed.length⟩]⟩
  | none => ⟨bytes,none,[]⟩

def payloadForSelectedEncoding (payload : UploadPayload) : Option String → Except Failure Bytes
  | none => .ok payload.rawBytes
  | some encoding =>
    if encoding = snapshotBlobEncodingZstd then
      match payload.zstdBytes with
      | some bytes => .ok bytes
      | none => .error (.bail "server selected zstd upload without a prepared zstd payload")
    else
      .error (.bail s!"Blob stream server selected unsupported upload encoding '{encoding}'")

/-- One call of `stream_upload_blob`: the blob and the id it is sent under. -/
structure UploadCall where
  workorderId : Uuid
  digest : Digest
  payload : UploadPayload

def uploadCall (env : Codecs) (workorderId : Uuid) (bytes : Bytes) : UploadCall :=
  ⟨workorderId,env.sha256 bytes,prepareUploadPayload env bytes⟩

def uploadInit (call : UploadCall) : UploadInit :=
  ⟨snapshotBlobProtocolVersion,call.workorderId,call.digest,call.payload.rawBytes.length,
    snapshotBlobDefaultChunkSizeBytes,call.payload.offeredEncodings.map (·.encoding),
    call.payload.offeredEncodings⟩

inductive Phase where
  | opening
  | sending (selectedBytes : Bytes) (nextOffset nextSequence chunkLength : ℕ)
  | completing
  | ended (result : Except Failure Bool)

structure Connection where
  policy : ChunkPolicy
  phase : Phase

def validateBlobUploadEnvelope (call : UploadCall) (version : ℕ) (workorderId : Uuid)
    (digest : Digest) : Except Failure Unit :=
  if version ≠ snapshotBlobProtocolVersion then
    .error (.bail (s!"Blob stream protocol version mismatch for {call.digest}: expected " ++
      s!"{snapshotBlobProtocolVersion}, got {version}"))
  else if digest ≠ call.digest then
    .error (.bail s!"Blob stream digest mismatch: expected {call.digest}, got {digest}")
  else if workorderId ≠ call.workorderId then
    .error (.bail (s!"Blob stream workorder ID mismatch: expected {call.workorderId}, got " ++
      s!"Some({workorderId})"))
  else .ok ()

def proceed (env : Codecs) (policy : ChunkPolicy) (selectedBytes : Bytes)
    (nextOffset nextSequence : ℕ) : Connection × List WsMessage :=
  if nextOffset < selectedBytes.length then
    let size := policy.chunkSizeForRemaining (selectedBytes.length-nextOffset)
    let chunk := (selectedBytes.drop nextOffset).take size
    match encodeWithPayload env (fromPayload env nextSequence nextOffset chunk) chunk with
    | .ok frame =>
      (⟨policy,.sending selectedBytes nextOffset nextSequence chunk.length⟩,
        [.binary (decode env frame)])
    | .error _ => (⟨policy,.ended (.error (.bail "Failed to encode snapshot chunk frame"))⟩,[])
  else (⟨policy,.completing⟩,[])

def failed (policy : ChunkPolicy) (message : String) : Connection × List WsMessage :=
  (⟨policy,.ended (.error (.bail message))⟩,[])

def orFail {α : Type} (policy : ChunkPolicy) (r : Except Failure α)
    (next : α → Connection × List WsMessage) : Connection × List WsMessage :=
  match r with
  | .ok a => next a
  | .error failure => (⟨policy,.ended (.error failure)⟩,[])

def openReply (env : Codecs) (call : UploadCall) (policy : ChunkPolicy) :
    ServerControl → Connection × List WsMessage
  | .uploadResume version workorderId digest nextOffset nextSequence encoding expectedSize =>
    orFail policy (validateBlobUploadEnvelope call version workorderId digest) fun _ =>
    orFail policy (payloadForSelectedEncoding call.payload encoding) fun selectedBytes =>
      if expectedSize ≠ selectedBytes.length then
        failed policy (s!"Blob stream server selected an unexpected payload length for " ++
          s!"{call.digest}: expected {selectedBytes.length}, got {expectedSize}")
      else proceed env policy selectedBytes nextOffset nextSequence
  | .uploadError _ _ _ code message =>
    failed policy s!"Blob stream upload failed during init ({code}): {message}"
  | .uploadComplete version workorderId digest uploaded =>
    orFail policy (validateBlobUploadEnvelope call version workorderId digest) fun _ =>
      (⟨policy,.ended (.ok uploaded)⟩,[])
  | .uploadAck _ _ _ _ _ _ _ =>
    failed policy "Unexpected blob upload control frame before streaming: UploadAck"

def ackReply (env : Codecs) (call : UploadCall) (policy : ChunkPolicy) (slow : Bool)
    (selectedBytes : Bytes) (nextOffset nextSequence chunkLength : ℕ) :
    ServerControl → Connection × List WsMessage
  | .uploadAck version workorderId digest sequence offset size received =>
    orFail policy (validateBlobUploadEnvelope call version workorderId digest) fun _ =>
      if sequence ≠ nextSequence then
        failed policy (s!"Blob stream ack sequence mismatch for {call.digest}: expected " ++
          s!"{nextSequence}, got {sequence}")
      else if offset ≠ nextOffset then
        failed policy (s!"Blob stream ack offset mismatch for {call.digest}: expected " ++
          s!"{nextOffset}, got {offset}")
      else if size ≠ chunkLength then
        failed policy (s!"Blob stream ack size mismatch for {call.digest}: expected " ++
          s!"{chunkLength}, got {size}")
      else proceed env (policy.onAck slow) selectedBytes received (nextSequence+1)
  | .uploadError _ _ _ code message =>
    failed policy (s!"Blob stream upload failed while sending {call.digest} chunk " ++
      s!"{nextSequence} ({code}): {message}")
  | .uploadComplete _ _ _ _ =>
    failed policy (s!"Unexpected blob upload control frame after chunk {nextSequence} for " ++
      s!"{call.digest}: UploadComplete")
  | .uploadResume _ _ _ _ _ _ _ =>
    failed policy (s!"Unexpected blob upload control frame after chunk {nextSequence} for " ++
      s!"{call.digest}: UploadResume")

def completeReply (call : UploadCall) (policy : ChunkPolicy) :
    ServerControl → Connection × List WsMessage
  | .uploadComplete version workorderId digest uploaded =>
    orFail policy (validateBlobUploadEnvelope call version workorderId digest) fun _ =>
      (⟨policy,.ended (.ok uploaded)⟩,[])
  | .uploadError _ _ _ code message =>
    failed policy (s!"Blob stream upload failed while completing {call.digest} ({code}): " ++
      s!"{message}")
  | .uploadAck _ _ _ _ _ _ _ =>
    failed policy s!"Unexpected blob upload completion frame for {call.digest}: UploadAck"
  | .uploadResume _ _ _ _ _ _ _ =>
    failed policy s!"Unexpected blob upload completion frame for {call.digest}: UploadResume"

def react (env : Codecs) (call : UploadCall) (slow : Bool) (c : Connection)
    (control : ServerControl) : Connection × List WsMessage :=
  match c.phase with
  | .opening => openReply env call c.policy control
  | .sending selectedBytes nextOffset nextSequence chunkLength =>
    ackReply env call c.policy slow selectedBytes nextOffset nextSequence chunkLength control
  | .completing => completeReply call c.policy control
  | .ended _ => (c,[])

def closed (call : UploadCall) : Failure :=
  .bail s!"Blob stream closed before completing upload for {call.digest}"

def attemptResult (call : UploadCall) (c : Connection) : Except Failure Bool :=
  match c.phase with
  | .ended result => result
  | _ => .error (closed call)

def retryableMessages : List String :=
  ["failed to connect to snapshot blob stream","failed to send blob chunk",
    "blob stream read failed","blob stream closed unexpectedly",
    "blob stream closed before completing upload","timed out waiting for blob upload control frame"]

def isRetryableBlobStreamError (failure : Failure) : Bool :=
  retryableMessages.any (containsText (toAsciiLowercase failure.text))

def maxConnectionAttempts : ℕ := 4

end Remerge.BlobUploadClient
