import Remerge.Interleaving
import Remerge.UploadSessions

/-!
# The blob upload handler

`handle_blob_upload_ws` as a state machine. A stage is what the handler still
has to do, its body runs up to the point where a session function has returned
or the next frame is awaited, and names the stage that follows. Reading and
writing the socket are operations of their own; what the peer sends, and
whether a reply can be written, is not the server's to decide.
-/

set_option autoImplicit false

namespace Remerge.UploadHandler
open StepProgram Interleaving SnapshotTypes SnapshotStore ChunkFrames UploadSessions

structure EncodingOffer where
  encoding : String
  sizeBytes : ℕ
  deriving DecidableEq, Repr

structure UploadInit where
  version : ℕ
  workorderId : Uuid
  digest : Digest
  totalSizeBytes : ℕ
  chunkSizeBytes : ℕ
  capabilityFlags : List String
  offeredEncodings : List EncodingOffer
  deriving DecidableEq, Repr

/-- A frame from the client. Text is given as what parsing it as a control
message yields, a binary frame as what decoding its header yields. -/
inductive WsMessage where
  | text (init : Except String UploadInit)
  | binary (frame : Except ChunkFrameError (ChunkHeader × Bytes))
  | ping | pong | close

abbrev Received : Type := Option (Except String WsMessage)

inductive ServerControl where
  | uploadResume (version : ℕ) (workorderId : Uuid) (digest : Digest) (nextOffsetBytes : ℕ)
      (nextSequence : ℕ) (selectedEncoding : Option String) (expectedSizeBytes : ℕ)
  | uploadAck (version : ℕ) (workorderId : Uuid) (digest : Digest) (sequence : ℕ)
      (offsetBytes : ℕ) (sizeBytes : ℕ) (receivedBytes : ℕ)
  | uploadComplete (version : ℕ) (workorderId : Uuid) (digest : Digest) (uploaded : Bool)
  | uploadError (version : ℕ) (workorderId : Option Uuid) (digest : Option Digest)
      (code : String) (message : String)
  deriving DecidableEq, Repr

inductive UploadOp where
  | receive
  | send (control : ServerControl)
  | sendClose
  | call (o : SessionOp)

@[reducible] def UploadRes : UploadOp → Type
  | .receive => Received
  | .send _ => Bool
  | .sendClose => Unit
  | .call o => SessionRes o

abbrev UploadProg (α : Type) : Type := Prog UploadOp UploadRes α

def op (o : UploadOp) : UploadProg (UploadRes o) := perform o

def onSessions {α : Type} (p : SessionProg α) : UploadProg (Except Failure α) :=
  interpret (fun o => op (.call o)) (outcome p)

structure BlobUploadSession where
  workorderId : Uuid
  params : SessionParams
  nextSequence : ℕ
  receivedBytes : ℕ
  deriving DecidableEq, Repr

inductive UploadStage where
  | accepting
  | preparing (workorderId : Uuid) (params : SessionParams)
  | prepared (workorderId : Uuid) (params : SessionParams) (resumed : PersistedBlobUploadState)
  | streaming (session : BlobUploadSession)
  | appending (session : BlobUploadSession) (header : ChunkHeader) (payload : Bytes)
  | appended (session : BlobUploadSession) (header : ChunkHeader)
  | finalizing (workorderId : Uuid) (digest : Digest)

def sendBlobUploadError (workorderId : Option Uuid) (digest : Option Digest)
    (code message : String) : UploadProg Unit := do
  let _ ← op (.send (.uploadError snapshotBlobProtocolVersion workorderId digest code message))
  op .sendClose

def reject (workorderId : Uuid) (digest : Digest) (code message : String) :
    UploadProg (Option UploadStage) := do
  sendBlobUploadError (some workorderId) (some digest) code message
  pure none

def selectUploadEncoding (rawSizeBytes : ℕ) (capabilityFlags : List String)
    (offeredEncodings : List EncodingOffer) : Except Failure (Option String × ℕ) :=
  match (if capabilityFlags.any (· == snapshotBlobEncodingZstd) then
      offeredEncodings.find? (·.encoding == snapshotBlobEncodingZstd) else none) with
  | some offer => .ok (some offer.encoding,offer.sizeBytes)
  | none =>
    match offeredEncodings.find? (·.encoding != snapshotBlobEncodingZstd) with
    | some offer => .error (.bail s!"unsupported offered upload encoding '{offer.encoding}'")
    | none => .ok (none,rawSizeBytes)

def sendComplete (workorderId : Uuid) (digest : Digest) (uploaded : Bool) :
    UploadProg (Option UploadStage) := do
  let _ ← op (.send (.uploadComplete snapshotBlobProtocolVersion workorderId digest uploaded))
  op .sendClose
  pure none

/-- After a well-formed `upload_init`: the checks, and the short way out for a
blob that is already stored. -/
def openUpload (init : UploadInit) : UploadProg (Option UploadStage) :=
  if init.version ≠ snapshotBlobProtocolVersion then
    reject init.workorderId init.digest "unsupported_version"
      (s!"Blob stream protocol version {init.version} is unsupported; expected " ++
        s!"{snapshotBlobProtocolVersion}")
  else if init.chunkSizeBytes ≠ snapshotBlobDefaultChunkSizeBytes then
    reject init.workorderId init.digest "unsupported_chunk_size"
      s!"Blob stream chunk size must be {snapshotBlobDefaultChunkSizeBytes} bytes in v1"
  else
    match selectUploadEncoding init.totalSizeBytes init.capabilityFlags init.offeredEncodings with
    | .error failure =>
      reject init.workorderId init.digest "unsupported_encoding" failure.text
    | .ok (encoding,streamSizeBytes) => do
      match ← op (.call (.hasBlob init.digest)) with
      | .error failure =>
        reject init.workorderId init.digest "invalid_digest" failure.text
      | .ok true => do
        let _ ← onSessions (removeBlobUploadState init.digest)
        sendComplete init.workorderId init.digest false
      | .ok false =>
        pure (some (.preparing init.workorderId ⟨init.digest,init.totalSizeBytes,
          streamSizeBytes,init.chunkSizeBytes,encoding⟩))

def acceptUpload : UploadProg (Option UploadStage) := do
  match ← op .receive with
  | some (.ok (.text (.ok init))) => openUpload init
  | some (.ok (.text (.error e))) => do
    sendBlobUploadError none none "invalid_init_json" s!"Failed to parse upload_init: {e}"
    pure none
  | some (.ok _) => do
    sendBlobUploadError none none "invalid_init_frame"
      "The first blob-stream frame must be an upload_init text message"
    pure none
  | some (.error _) => pure none
  | none => pure none

def prepareUpload (workorderId : Uuid) (params : SessionParams) :
    UploadProg (Option UploadStage) := do
  match ← onSessions (prepareBlobUploadSession params) with
  | .ok resumed => pure (some (.prepared workorderId params resumed))
  | .error failure =>
    reject workorderId params.digest "resume_prepare_failed" failure.text

/-- Announces where to resume, unless all bytes are there already. -/
def resumeUpload (workorderId : Uuid) (params : SessionParams)
    (resumed : PersistedBlobUploadState) : UploadProg (Option UploadStage) :=
  if resumed.receivedBytes = params.streamSizeBytes then
    pure (some (.finalizing workorderId params.digest))
  else do
    let sent ← op (.send (.uploadResume snapshotBlobProtocolVersion workorderId params.digest
      resumed.nextOffsetBytes resumed.nextSequence resumed.selectedEncoding
      resumed.streamSizeBytes))
    if sent = false then pure none
    else if params.streamSizeBytes = 0 then pure (some (.finalizing workorderId params.digest))
    else pure (some (.streaming ⟨workorderId,params,resumed.nextSequence,resumed.nextOffsetBytes⟩))

/-- The checks of a chunk against the connection's own record of the session. -/
def checkChunk (session : BlobUploadSession) (header : ChunkHeader) :
    Except (String × String) Unit :=
  if header.sequence ≠ session.nextSequence then
    .error ("unexpected_sequence",
      s!"Expected chunk sequence {session.nextSequence}, got {header.sequence}")
  else if header.offsetBytes ≠ session.receivedBytes then
    .error ("unexpected_offset",
      s!"Expected chunk offset {session.receivedBytes}, got {header.offsetBytes}")
  else if session.params.chunkSizeBytes < header.payloadSizeBytes then
    .error ("chunk_too_large",
      (s!"Chunk size {header.payloadSizeBytes} exceeds the negotiated " ++
        s!"{session.params.chunkSizeBytes} bytes"))
  else if session.params.streamSizeBytes < session.receivedBytes+header.payloadSizeBytes then
    .error ("blob_too_large",
      (s!"Received {session.receivedBytes+header.payloadSizeBytes} bytes, which exceeds the " ++
        s!"declared blob length {session.params.streamSizeBytes}"))
  else .ok ()

theorem checkChunk_ok {session : BlobUploadSession} {header : ChunkHeader}
    (h : checkChunk session header = .ok ()) : header.offsetBytes = session.receivedBytes := by
  unfold checkChunk at h
  split at h
  · cases h
  · split at h
    · cases h
    · next ho => exact not_not.mp ho

def streamUpload (session : BlobUploadSession) : UploadProg (Option UploadStage) := do
  match ← op .receive with
  | none => pure none
  | some (.error _) => pure none
  | some (.ok .close) => pure none
  | some (.ok .ping) => pure (some (.streaming session))
  | some (.ok .pong) => pure (some (.streaming session))
  | some (.ok (.text _)) =>
    reject session.workorderId session.params.digest "unexpected_control_frame"
      "Chunk payloads must be sent as binary frames after upload_init"
  | some (.ok (.binary (.error e))) =>
    reject session.workorderId session.params.digest "invalid_chunk_frame" e.message
  | some (.ok (.binary (.ok (header,payload)))) =>
    match checkChunk session header with
    | .error (code,message) => reject session.workorderId session.params.digest code message
    | .ok () => pure (some (.appending session header payload))

def appendUpload (session : BlobUploadSession) (header : ChunkHeader) (payload : Bytes) :
    UploadProg (Option UploadStage) := do
  match ← onSessions (appendBlobUploadChunk session.params payload) with
  | .error failure =>
    reject session.workorderId session.params.digest "persist_failed" failure.text
  | .ok persisted =>
    pure (some (.appended { session with
      receivedBytes := persisted.receivedBytes
      nextSequence := persisted.nextSequence } header))

def acknowledge (session : BlobUploadSession) (header : ChunkHeader) :
    UploadProg (Option UploadStage) := do
  let sent ← op (.send (.uploadAck snapshotBlobProtocolVersion session.workorderId
    session.params.digest header.sequence header.offsetBytes header.payloadSizeBytes
    session.receivedBytes))
  if sent = false then pure none
  else if session.receivedBytes = session.params.streamSizeBytes then
    pure (some (.finalizing session.workorderId session.params.digest))
  else pure (some (.streaming session))

def finalizeUpload (env : Codecs) (workorderId : Uuid) (digest : Digest) :
    UploadProg (Option UploadStage) := do
  match ← onSessions (finalizeBlobUploadSession env digest) with
  | .error failure => reject workorderId digest "store_failed" failure.text
  | .ok uploaded => sendComplete workorderId digest uploaded

def stageBody (env : Codecs) : UploadStage → UploadProg (Option UploadStage)
  | .accepting => acceptUpload
  | .preparing workorderId params => prepareUpload workorderId params
  | .prepared workorderId params resumed => resumeUpload workorderId params resumed
  | .streaming session => streamUpload session
  | .appending session header payload => appendUpload session header payload
  | .appended session header => acknowledge session header
  | .finalizing workorderId digest => finalizeUpload env workorderId digest

structure UploadServer where
  store : UploadStore
  sent : List ServerControl

/-- What is decided elsewhere: the clock, an I/O error, the peer's next frame
and whether a reply can be written. -/
structure UploadOracle where
  time : Time := 0
  fault : Option Failure := none
  received : Received := none
  writable : Bool := true

def uploadSem (env : Codecs) (o : UploadOp) (w : UploadOracle) (s : UploadServer) :
    Option (UploadServer × UploadRes o) :=
  match o with
  | .receive => some (s,w.received)
  | .send control => some ({ s with sent := s.sent++[control] },w.writable)
  | .sendClose => some (s,())
  | .call o =>
    (sessionSem env o ⟨w.time,w.fault⟩ s.store).map fun r => ({ s with store := r.1 },r.2)

def uploadSystem (env : Codecs) :
    System UploadStage UploadOp UploadRes UploadServer UploadOracle where
  sem := uploadSem env
  body := stageBody env
  spawns := fun _ => none
  starts := fun
    | .accepting => true
    | _ => false

end Remerge.UploadHandler
