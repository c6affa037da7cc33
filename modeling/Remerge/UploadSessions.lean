import Remerge.ChunkFrames
import Remerge.SnapshotRuntime

/-!
# Blob upload sessions

An upload session is kept in two files per digest, the persisted state and the
`.part` file with the bytes received so far. The session functions of the
upload handler are programs over the calls that touch these files and the blob
store. A call is one file step for every other task: state files are replaced
by a rename, and the raw file of a blob appears by a link.
-/

set_option autoImplicit false

namespace Remerge.UploadSessions
open StepProgram SnapshotTypes SnapshotStore ChunkFrames Function

def snapshotBlobEncodingZstd : String := "zstd"

/-- `next_sequence` counts the appended chunks. Its `saturating_add` is a plain
successor here: a session would need `2^64` chunks to reach the bound. -/
structure PersistedBlobUploadState where
  digest : Digest
  rawSizeBytes : ℕ
  streamSizeBytes : ℕ
  chunkSizeBytes : ℕ
  selectedEncoding : Option String
  nextSequence : ℕ
  nextOffsetBytes : ℕ
  receivedBytes : ℕ
  deriving DecidableEq, Repr

structure SessionFiles where
  state : Option PersistedBlobUploadState
  part : Option Bytes
  deriving DecidableEq, Repr

def SessionFiles.received (files : SessionFiles) : ℕ := (files.part.getD []).length

/-- The blob store and the session directory. A state file is named by the
digest it records. -/
structure UploadStore where
  raw : Digest → Option Bytes
  metadata : Digest → Option StoredMetadata
  encoded : Digest → Option Bytes
  sessions : Digest → SessionFiles
  named : ∀ digest state, (sessions digest).state = some state → state.digest = digest

namespace UploadStore

def setState (s : UploadStore) (state : PersistedBlobUploadState) : UploadStore where
  raw := s.raw
  metadata := s.metadata
  encoded := s.encoded
  sessions := update s.sessions state.digest
    { s.sessions state.digest with state := some state }
  named := by
    intro digest st h
    by_cases hd : digest = state.digest
    · subst hd
      rw [update_self] at h
      cases h
      rfl
    · rw [update_of_ne hd] at h
      exact s.named digest st h

def clearState (s : UploadStore) (digest : Digest) : UploadStore where
  raw := s.raw
  metadata := s.metadata
  encoded := s.encoded
  sessions := update s.sessions digest { s.sessions digest with state := none }
  named := by
    intro d st h
    by_cases hd : d = digest
    · subst hd
      rw [update_self] at h
      cases h
    · rw [update_of_ne hd] at h
      exact s.named d st h

def setPart (s : UploadStore) (digest : Digest) (part : Option Bytes) : UploadStore where
  raw := s.raw
  metadata := s.metadata
  encoded := s.encoded
  sessions := update s.sessions digest { s.sessions digest with part := part }
  named := by
    intro d st h
    by_cases hd : d = digest
    · subst hd
      rw [update_self] at h
      exact s.named d st h
    · rw [update_of_ne hd] at h
      exact s.named d st h

def setMetadata (s : UploadStore) (digest : Digest) (metadata : StoredMetadata) : UploadStore :=
  { s with metadata := update s.metadata digest (some metadata) }

/-- `write_bytes_atomically` for a raw file: a file that exists is kept. -/
def keepRaw (s : UploadStore) (digest : Digest) (bytes : Bytes) : UploadStore :=
  { s with raw := update s.raw digest (some ((s.raw digest).getD bytes)) }

def keepEncoded (s : UploadStore) (digest : Digest) (bytes : Bytes) : UploadStore :=
  { s with encoded := update s.encoded digest (some ((s.encoded digest).getD bytes)) }

end UploadStore

/-- `ensure_blob_metadata` with the metadata file as found. -/
def ensuredMetadata (now : Time) (digest : Digest) (rawSizeBytes : ℕ) :
    Option StoredMetadata → Except Failure StoredMetadata
  | none => .ok ⟨digest,rawSizeBytes,now,none⟩
  | some metadata =>
    match metadataMismatch digest rawSizeBytes metadata with
    | some failure => .error failure
    | none => .ok metadata

def storeEncodedVariantEffect (now : Time) (digest : Digest) (rawSizeBytes : ℕ) (bytes : Bytes)
    (s : UploadStore) : UploadStore × Except Failure Unit :=
  match ensuredMetadata now digest rawSizeBytes (s.metadata digest) with
  | .error failure => (s,.error failure)
  | .ok metadata =>
    ((s.keepEncoded digest bytes).setMetadata digest
      { metadata with encodedVariants := some bytes.length },.ok ())

def storeZstdVariantEffect (env : Codecs) (now : Time) (digest : Digest) (bytes : Bytes)
    (s : UploadStore) : UploadStore × Except Failure Unit :=
  match ensuredMetadata now digest bytes.length (s.metadata digest) with
  | .error failure => (s,.error failure)
  | .ok metadata =>
    if metadata.encodedVariants.isSome && (s.encoded digest).isSome then
      (s.setMetadata digest metadata,.ok ())
    else match encodeZstdIfWorthwhile env bytes with
      | none => (s.setMetadata digest metadata,.ok ())
      | some compressed =>
        storeEncodedVariantEffect now digest bytes.length compressed (s.setMetadata digest metadata)

/-- `touch_blob`, which takes the size from the raw file. -/
def touchBlobEffect (now : Time) (digest : Digest) (s : UploadStore) :
    UploadStore × Except Failure Unit :=
  match s.raw digest with
  | none => (s,.error (.io .notFound "Failed to stat"))
  | some content =>
    match ensuredMetadata now digest content.length (s.metadata digest) with
    | .error failure => (s,.error failure)
    | .ok metadata =>
      (s.setMetadata digest { metadata with lastReferencedAt := now },.ok ())

def thenOn {α : Type} (r : UploadStore × Except Failure Unit)
    (next : UploadStore → UploadStore × Except Failure α) : UploadStore × Except Failure α :=
  match r with
  | (s,.error failure) => (s,.error failure)
  | (s,.ok ()) => next s

/-- `store_blob_for_digest`. The raw file is in place before its metadata is
looked at. -/
def storeBlobForDigestEffect (env : Codecs) (now : Time) (digest : Digest) (bytes : Bytes)
    (s : UploadStore) : UploadStore × Except Failure Bool :=
  if validDigest digest = false then (s,.error (invalidDigest digest))
  else if env.sha256 bytes ≠ digest then
    (s,.error (.bail s!"blob digest mismatch: expected {digest}, got {env.sha256 bytes}"))
  else
    thenOn (storeZstdVariantEffect env now digest bytes (s.keepRaw digest bytes)) fun t =>
    thenOn (touchBlobEffect now digest t) fun t => (t,.ok (s.raw digest).isNone)

theorem storeEncodedVariantEffect_frame (now : Time) (digest : Digest) (rawSizeBytes : ℕ)
    (bytes : Bytes) (s : UploadStore) :
    (storeEncodedVariantEffect now digest rawSizeBytes bytes s).1.raw = s.raw ∧
      (storeEncodedVariantEffect now digest rawSizeBytes bytes s).1.sessions = s.sessions := by
  unfold storeEncodedVariantEffect
  split <;> exact ⟨rfl,rfl⟩

theorem storeZstdVariantEffect_frame (env : Codecs) (now : Time) (digest : Digest)
    (bytes : Bytes) (s : UploadStore) :
    (storeZstdVariantEffect env now digest bytes s).1.raw = s.raw ∧
      (storeZstdVariantEffect env now digest bytes s).1.sessions = s.sessions := by
  unfold storeZstdVariantEffect
  split
  · exact ⟨rfl,rfl⟩
  · split
    · exact ⟨rfl,rfl⟩
    · split
      · exact ⟨rfl,rfl⟩
      · exact storeEncodedVariantEffect_frame now digest bytes.length _ (s.setMetadata digest _)

theorem touchBlobEffect_frame (now : Time) (digest : Digest) (s : UploadStore) :
    (touchBlobEffect now digest s).1.raw = s.raw ∧
      (touchBlobEffect now digest s).1.sessions = s.sessions := by
  unfold touchBlobEffect
  split
  · exact ⟨rfl,rfl⟩
  · split <;> exact ⟨rfl,rfl⟩

theorem thenOn_frame {α : Type} {s : UploadStore} {r : UploadStore × Except Failure Unit}
    {next : UploadStore → UploadStore × Except Failure α}
    (hr : r.1.raw = s.raw ∧ r.1.sessions = s.sessions)
    (hn : ∀ t, (next t).1.raw = t.raw ∧ (next t).1.sessions = t.sessions) :
    (thenOn r next).1.raw = s.raw ∧ (thenOn r next).1.sessions = s.sessions := by
  rcases r with ⟨t,e | u⟩
  · exact hr
  · exact ⟨(hn t).1.trans hr.1,(hn t).2.trans hr.2⟩

theorem storeBlobForDigestEffect_frame (env : Codecs) (now : Time) (digest : Digest)
    (bytes : Bytes) (s : UploadStore) :
    (storeBlobForDigestEffect env now digest bytes s).1.sessions = s.sessions ∧
      ((∃ e, storeBlobForDigestEffect env now digest bytes s = (s,.error e)) ∨
        env.sha256 bytes = digest ∧
          (storeBlobForDigestEffect env now digest bytes s).1.raw =
            update s.raw digest (some ((s.raw digest).getD bytes))) := by
  unfold storeBlobForDigestEffect
  split
  · exact ⟨rfl,.inl ⟨_,rfl⟩⟩
  · split
    · exact ⟨rfl,.inl ⟨_,rfl⟩⟩
    · next hd =>
      have htouch : ∀ t, (thenOn (touchBlobEffect now digest t)
          fun u => (u,Except.ok (s.raw digest).isNone)).1.raw = t.raw ∧
          (thenOn (touchBlobEffect now digest t)
            fun u => (u,Except.ok (s.raw digest).isNone)).1.sessions = t.sessions := fun t =>
        thenOn_frame (touchBlobEffect_frame now digest t) fun u => ⟨rfl,rfl⟩
      have h := thenOn_frame
        (storeZstdVariantEffect_frame env now digest bytes (s.keepRaw digest bytes)) htouch
      exact ⟨h.2,.inr ⟨not_not.mp hd,h.1⟩⟩

inductive SessionOp where
  | hasBlob (digest : Digest)
  | loadState (digest : Digest)
  | persistState (state : PersistedBlobUploadState)
  | statPart (digest : Digest)
  | appendPart (digest : Digest) (payload : Bytes)
  | readPart (digest : Digest)
  | removeState (digest : Digest)
  | removePart (digest : Digest)
  | storeBlobForDigest (digest : Digest) (bytes : Bytes)
  | storeEncodedVariant (digest : Digest) (rawSizeBytes : ℕ) (bytes : Bytes)

@[reducible] def SessionVal : SessionOp → Type
  | .hasBlob _ => Bool
  | .loadState _ => Option PersistedBlobUploadState
  | .statPart _ => ℕ
  | .readPart _ => Bytes
  | .storeBlobForDigest _ _ => Bool
  | _ => Unit

@[reducible] def SessionRes (o : SessionOp) : Type := Except Failure (SessionVal o)

def sessionEffect (env : Codecs) (now : Time) (s : UploadStore) :
    (o : SessionOp) → UploadStore × SessionRes o
  | .hasBlob digest =>
    (s,if validDigest digest = false then .error (invalidDigest digest)
      else .ok (s.raw digest).isSome)
  | .loadState digest => (s,.ok (s.sessions digest).state)
  | .persistState state => (s.setState state,.ok ())
  | .statPart digest =>
    (s,match (s.sessions digest).part with
      | some part => .ok part.length
      | none => .error (.io .notFound "Failed to stat"))
  | .appendPart digest payload =>
    (s.setPart digest (some (((s.sessions digest).part.getD [])++payload)),.ok ())
  | .readPart digest =>
    (s,match (s.sessions digest).part with
      | some part => .ok part
      | none => .error (.io .notFound "Failed to read"))
  | .removeState digest => (s.clearState digest,.ok ())
  | .removePart digest => (s.setPart digest none,.ok ())
  | .storeBlobForDigest digest bytes => storeBlobForDigestEffect env now digest bytes s
  | .storeEncodedVariant digest rawSizeBytes bytes =>
    storeEncodedVariantEffect now digest rawSizeBytes bytes s

structure SessionOracle where
  time : Time := 0
  fault : Option Failure := none

/-- A call that reports `NotFound` has found nothing, so that is no fault. -/
def sessionSem (env : Codecs) (o : SessionOp) (w : SessionOracle) (s : UploadStore) :
    Option (UploadStore × SessionRes o) :=
  match w.fault with
  | none => some (sessionEffect env w.time s o)
  | some failure => if failure.isNotFoundError then none else some (s,.error failure)

abbrev SessionProg (α : Type) : Type := Fallible SessionOp SessionRes Failure α

def sessionCall (o : SessionOp) : SessionProg (SessionVal o) := ExceptT.mk (perform o)

def debugEncoding : Option String → String
  | none => "None"
  | some encoding => s!"Some(\"{encoding}\")"

structure SessionParams where
  digest : Digest
  rawSizeBytes : ℕ
  streamSizeBytes : ℕ
  chunkSizeBytes : ℕ
  selectedEncoding : Option String
  deriving DecidableEq, Repr

def SessionParams.fresh (p : SessionParams) : PersistedBlobUploadState :=
  ⟨p.digest,p.rawSizeBytes,p.streamSizeBytes,p.chunkSizeBytes,p.selectedEncoding,0,0,0⟩

def sessionExpects (digest : Digest) (what found wanted : String) : Failure :=
  .bail s!"Upload session for {digest} expects {what} {found}, got {wanted}"

/-- The checks of a persisted state against the parameters, in their order. -/
def checkSession (p : SessionParams) (state : PersistedBlobUploadState) : Except Failure Unit :=
  if state.rawSizeBytes ≠ p.rawSizeBytes then
    .error (sessionExpects p.digest "raw size" (toString state.rawSizeBytes)
      (toString p.rawSizeBytes))
  else if state.streamSizeBytes ≠ p.streamSizeBytes then
    .error (sessionExpects p.digest "stream size" (toString state.streamSizeBytes)
      (toString p.streamSizeBytes))
  else if state.chunkSizeBytes ≠ p.chunkSizeBytes then
    .error (sessionExpects p.digest "chunk size" (toString state.chunkSizeBytes)
      (toString p.chunkSizeBytes))
  else if state.selectedEncoding ≠ p.selectedEncoding then
    .error (sessionExpects p.digest "encoding" (debugEncoding state.selectedEncoding)
      (debugEncoding p.selectedEncoding))
  else .ok ()

def inconsistentSession (state : PersistedBlobUploadState) (received : ℕ) : Failure :=
  .bail (s!"Upload session for {state.digest} is inconsistent: metadata records offset " ++
    s!"{state.receivedBytes} / {state.nextOffsetBytes} but staged bytes total {received}")

def missingSequence (digest : Digest) (received : ℕ) : Failure :=
  .bail (s!"Upload session for {digest} is missing exact resume sequence metadata " ++
    s!"at offset {received}")

/-- Brings the recorded offsets in line with the length of the part file, or
refuses to. -/
def alignState (received : ℕ) (state : PersistedBlobUploadState) :
    Except Failure PersistedBlobUploadState :=
  if (state.receivedBytes ≠ received ∨ state.nextOffsetBytes ≠ received) ∧ received ≠ 0 then
    .error (inconsistentSession state received)
  else
    let state := if state.receivedBytes ≠ received ∨ state.nextOffsetBytes ≠ received then
      { state with receivedBytes := 0, nextOffsetBytes := 0, nextSequence := 0 } else state
    if 0 < received ∧ state.nextSequence = 0 then
      .error (missingSequence state.digest received)
    else .ok { state with receivedBytes := received, nextOffsetBytes := received }

def removeBlobUploadState (digest : Digest) : SessionProg Unit := do
  sessionCall (.removeState digest)
  sessionCall (.removePart digest)

def partLength (digest : Digest) : SessionProg ℕ := ExceptT.mk do
  match ← perform (.statPart digest) with
  | .ok length => pure (.ok length)
  | .error failure => if failure.isNotFoundError then pure (.ok 0) else pure (.error failure)

def prepareBlobUploadSession (p : SessionParams) : SessionProg PersistedBlobUploadState := do
  let loaded ← sessionCall (.loadState p.digest)
  let state := loaded.getD p.fresh
  ExceptT.mk (pure (checkSession p state))
  let received ← partLength p.digest
  if p.streamSizeBytes < received then
    removeBlobUploadState p.digest
    throw (.bail (s!"Upload session for {p.digest} exceeds declared size: " ++
      s!"{received} > {p.streamSizeBytes}"))
  let state ← ExceptT.mk (pure (alignState received state))
  sessionCall (.persistState state)
  pure state

def appendBlobUploadChunk (p : SessionParams) (payload : Bytes) :
    SessionProg PersistedBlobUploadState := do
  let state ← prepareBlobUploadSession p
  let nextReceived := state.receivedBytes+payload.length
  if p.streamSizeBytes < nextReceived then
    throw (.bail (s!"Upload chunk would exceed declared size for {p.digest}: " ++
      s!"{nextReceived} > {p.streamSizeBytes}"))
  if payload = [] ∧ nextReceived < p.streamSizeBytes then
    throw (.bail s!"Non-final chunk for {p.digest} must not be empty")
  sessionCall (.appendPart p.digest payload)
  let state := { state with
    receivedBytes := nextReceived
    nextOffsetBytes := nextReceived
    nextSequence := state.nextSequence+1 }
  sessionCall (.persistState state)
  pure state

def decodeStream (env : Codecs) (encoding : Option String) (stream : Bytes) :
    Except Failure Bytes :=
  match encoding with
  | none => .ok stream
  | some name =>
    if name = snapshotBlobEncodingZstd then
      match env.decodeZstd stream with
      | some raw => .ok raw
      | none => .error (.bail "zstd decoding failed")
    else .error (.bail s!"unsupported upload encoding '{name}'")

def loadSession (digest : Digest) : SessionProg PersistedBlobUploadState := do
  match ← sessionCall (.loadState digest) with
  | some state => pure state
  | none => throw (.bail s!"No upload session found for {digest}")

def storeStream (env : Codecs) (digest : Digest) (state : PersistedBlobUploadState)
    (stream : Bytes) : SessionProg Bool := do
  let raw ← ExceptT.mk (pure (decodeStream env state.selectedEncoding stream))
  if raw.length ≠ state.rawSizeBytes then
    throw (.bail (s!"Upload session for {digest} decoded to {raw.length} raw bytes, " ++
      s!"expected {state.rawSizeBytes}"))
  let uploaded ← sessionCall (.storeBlobForDigest digest raw)
  if state.selectedEncoding = some snapshotBlobEncodingZstd then
    sessionCall (.storeEncodedVariant digest state.rawSizeBytes stream)
  removeBlobUploadState digest
  pure uploaded

def finalizeBlobUploadSession (env : Codecs) (digest : Digest) : SessionProg Bool := do
  let state ← loadSession digest
  let received ← partLength digest
  if received ≠ state.streamSizeBytes then
    throw (.bail (s!"Upload session for {digest} is incomplete: " ++
      s!"{received} of {state.streamSizeBytes} bytes received"))
  let stream ← sessionCall (.readPart digest)
  storeStream env digest state stream

theorem checkSession_ok {p : SessionParams} {state : PersistedBlobUploadState} :
    checkSession p state = .ok () ↔ state.rawSizeBytes = p.rawSizeBytes ∧
      state.streamSizeBytes = p.streamSizeBytes ∧ state.chunkSizeBytes = p.chunkSizeBytes ∧
      state.selectedEncoding = p.selectedEncoding := by
  unfold checkSession
  split_ifs with hr hs hc he <;> simp_all

theorem alignState_ok {received : ℕ} {state state' : PersistedBlobUploadState}
    (h : alignState received state = .ok state') :
    state' = { state with
      receivedBytes := received
      nextOffsetBytes := received
      nextSequence := state'.nextSequence } ∧
    (received ≠ 0 → state.receivedBytes = received ∧ state.nextOffsetBytes = received ∧
      0 < state'.nextSequence) := by
  unfold alignState at h
  by_cases ha : state.receivedBytes ≠ received ∨ state.nextOffsetBytes ≠ received
  · by_cases hr : received = 0
    · rw [if_neg (by simp [hr]),if_pos ha,if_neg (by simp [hr])] at h
      cases h
      exact ⟨rfl,fun hn => absurd hr hn⟩
    · rw [if_pos ⟨ha,hr⟩] at h
      cases h
  · rw [if_neg (fun hm => ha hm.1),if_neg ha] at h
    dsimp only at h
    split at h
    · cases h
    · next hq =>
      cases h
      refine ⟨rfl,fun hr => ?_⟩
      dsimp only
      omega

end Remerge.UploadSessions
