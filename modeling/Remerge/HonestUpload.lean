import Remerge.UploadHandler

/-!
# Clients that upload one payload

An upload is a payload together with a compressed form that decodes to it. The
server picks one of the two as the stream of a session. A client is honest if
what it declares is true of the payload and every chunk it sends is the part of
the selected stream that starts at the chunk's offset. It may cut the stream as
it likes, stop at any point and send anything that is not a chunk.
-/

set_option autoImplicit false

namespace Remerge.HonestUpload
open StepProgram Interleaving SnapshotTypes SnapshotStore ChunkFrames UploadSessions UploadHandler

structure Upload (env : Codecs) where
  payload : Bytes
  compressed : Bytes
  decodes : env.decodeZstd compressed = some payload

variable {env : Codecs}

def uploadOf (env : Codecs) (payload : Bytes) : Upload env :=
  ⟨payload,env.encodeZstd payload,env.decode_encode payload⟩

namespace Upload

variable (U : Upload env)

def digest : Digest := env.sha256 U.payload

def stream : Option String → Bytes
  | none => U.payload
  | some _ => U.compressed

def params (encoding : Option String) : SessionParams :=
  ⟨U.digest,U.payload.length,(U.stream encoding).length,snapshotBlobDefaultChunkSizeBytes,encoding⟩

def SizeAgrees : Except Failure (Option String × ℕ) → Prop
  | .ok (encoding,size) => size = (U.stream encoding).length
  | .error _ => True

def Declares (init : UploadInit) : Prop :=
  init.digest = U.digest ∧ init.totalSizeBytes = U.payload.length ∧
    U.SizeAgrees (selectUploadEncoding init.totalSizeBytes init.capabilityFlags
      init.offeredEncodings)

def Opens : Received → Prop
  | some (.ok (.text (.ok init))) => U.Declares init
  | _ => True

def Continues (encoding : Option String) : Received → Prop
  | some (.ok (.binary (.ok (header,chunk)))) =>
    chunk <+: (U.stream encoding).drop header.offsetBytes
  | _ => True

def Honest : UploadStage → (o : UploadOp) → UploadRes o → Prop
  | .accepting, .receive, r => U.Opens r
  | .streaming session, .receive, r => U.Continues session.params.selectedEncoding r
  | _, _, _ => True

instance (r : Except Failure (Option String × ℕ)) : Decidable (U.SizeAgrees r) :=
  match r with
  | .ok (encoding,size) => inferInstanceAs (Decidable (size = (U.stream encoding).length))
  | .error _ => isTrue trivial

instance (init : UploadInit) : Decidable (U.Declares init) := instDecidableAnd

instance (r : Received) : Decidable (U.Opens r) :=
  match r with
  | some (.ok (.text (.ok init))) => inferInstanceAs (Decidable (U.Declares init))
  | some (.ok (.text (.error _))) | some (.ok (.binary _)) | some (.ok .ping)
  | some (.ok .pong) | some (.ok .close) | some (.error _) | none => isTrue trivial

instance (encoding : Option String) (r : Received) : Decidable (U.Continues encoding r) :=
  match r with
  | some (.ok (.binary (.ok (header,chunk)))) =>
    inferInstanceAs (Decidable (chunk <+: (U.stream encoding).drop header.offsetBytes))
  | some (.ok (.binary (.error _))) | some (.ok (.text _)) | some (.ok .ping)
  | some (.ok .pong) | some (.ok .close) | some (.error _) | none => isTrue trivial

instance (k : UploadStage) (o : UploadOp) (r : UploadRes o) : Decidable (U.Honest k o r) :=
  match k, o, r with
  | .accepting, .receive, r => inferInstanceAs (Decidable (U.Opens r))
  | .streaming session, .receive, r =>
    inferInstanceAs (Decidable (U.Continues session.params.selectedEncoding r))
  | .accepting, .send _, _ | .accepting, .sendClose, _ | .accepting, .call _, _
  | .streaming _, .send _, _ | .streaming _, .sendClose, _ | .streaming _, .call _, _
  | .preparing _ _, _, _ | .prepared _ _ _, _, _ | .appending _ _ _, _, _
  | .appended _ _, _, _ | .finalizing _ _, _, _ => isTrue trivial

theorem decodeStream_stream {encoding : Option String} {raw : Bytes}
    (h : decodeStream env encoding (U.stream encoding) = .ok raw) : raw = U.payload := by
  cases encoding with
  | none => exact (Except.ok.inj h).symm
  | some name =>
    unfold decodeStream at h
    simp only [stream,U.decodes] at h
    split at h
    · exact (Except.ok.inj h).symm
    · cases h

end Upload

def sampleUpload : Upload plainCodecs := uploadOf plainCodecs [97,98]

def emptyStore : UploadStore where
  raw := fun _ => none
  metadata := fun _ => none
  encoded := fun _ => none
  sessions := fun _ => ⟨none,none⟩
  named := fun _ _ h => by cases h

def hears (i : ℕ) (r : Received) : Move UploadStage UploadOracle := .act i 9 { received := r }

def acts (i n : ℕ) : List (Move UploadStage UploadOracle) := List.replicate n (.act i 9 {})

def sampleInit : Received :=
  some (.ok (.text (.ok ⟨snapshotBlobProtocolVersion,"w",sampleUpload.digest,2,
    snapshotBlobDefaultChunkSizeBytes,[],[]⟩)))

def sampleChunk (sequence offset : ℕ) (chunk : Bytes) : Received :=
  some (.ok (.binary (.ok (fromPayload plainCodecs sequence offset chunk,chunk))))

def opensSample (i : ℕ) : List (Move UploadStage UploadOracle) :=
  [.start i .accepting,hears i sampleInit]++acts i 1++[.next i]++acts i 3++[.next i]++acts i 1++
    [.next i]

def appendsSample (i : ℕ) (r : Received) : List (Move UploadStage UploadOracle) :=
  [hears i r,.next i]++acts i 5++[.next i]

end Remerge.HonestUpload
