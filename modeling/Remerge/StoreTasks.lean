import Remerge.BlobStore
import Remerge.WorkorderApi

/-!
# Tasks on the snapshot store

The requests and background jobs that read and write the state directory, as
tasks over file operations. Their file steps interleave freely.
-/

set_option autoImplicit false

namespace Remerge.StoreTasks
open StepProgram SnapshotTypes StagingPaths SnapshotStore SnapshotRuntime UploadSessions
open Interleaving ClientAuth WorkorderApi BlobStore

def requestAcceptsZstd (text : UnicodeText) (headers : HeaderMap) : Bool :=
  ((getHeader headers "accept-encoding").bind toStr).any fun value =>
    (value.toList.splitOn ',').any fun token =>
      lowerName (text.trim (String.ofList ((token.splitOn ';').headD []))) == "zstd"

abbrev DownloadAnswer : Type := Except (ℕ × String) DownloadResponse

def serveRaw (digest : Digest) : Prog FileOp FileRes DownloadAnswer :=
  if validDigest digest = false then .ret (.error (400,(invalidDigest digest).text))
  else do
    match ← diskCall (.read (.raw .blob digest)) with
    | .ok (.bytes body) => pure (.ok ⟨none,body⟩)
    | .ok _ => pure (.error (500,"Failed to read"))
    | .error failure =>
      if failure.isNotFoundError then
        pure (.error (404,s!"Snapshot blob {digest} not found"))
      else pure (.error (500,"Failed to read"))

/-- An encoded file that is listed and gone is no error. -/
def serveEncoded (digest : Digest) : Prog FileOp FileRes DownloadAnswer := do
  match ← diskCall (.read (.encoded .blob digest)) with
  | .ok (.bytes body) => pure (.ok ⟨some snapshotBlobEncodingZstd,body⟩)
  | .ok _ => pure (.error (500,"Failed to read"))
  | .error failure =>
    if failure.isNotFoundError then serveRaw digest
    else pure (.error (500,"Failed to read"))

def downloadBlob (text : UnicodeText) (registry : CertRegistry) (headers : HeaderMap)
    (digest : Digest) : Prog FileOp FileRes DownloadAnswer :=
  match requireSnapshotAuth text registry headers with
  | .error refusal => .ret (.error refusal)
  | .ok () =>
    if requestAcceptsZstd text headers then do
      match ← outcome (loadMetadata .blob digest) with
      | .ok ⟨_,_,_,some _⟩ => serveEncoded digest
      | _ => serveRaw digest
    else serveRaw digest

inductive StoreTask where
  | store (bytes : Bytes)
  | storeForDigest (digest : Digest) (bytes : Bytes)
  | prepare (params : SessionParams)
  | append (params : SessionParams) (payload : Bytes)
  | finalize (digest : Digest)
  | touch (kind : EntryKind) (digest : Digest) (lastReferencedAt : Time)
  | delete (kind : EntryKind) (digest : Digest)
  | normalize (config : PortageConfig)
  | stage (id : WorkorderId) (config : PortageConfig)
  | ingestParity (id : WorkorderId)
  | ingestDistfiles (id : WorkorderId)
  | cleanup (id : WorkorderId)
  | download (headers : HeaderMap) (digest : Digest)

/-- The tasks built on the calls of the runtime, staging among them. -/
def StoreTask.mayCopy : StoreTask → Bool
  | .normalize _ | .stage _ _ | .ingestParity _ | .ingestDistfiles _ => true
  | _ => false

variable (env : Codecs) (text : UnicodeText) (registry : CertRegistry)

def done {α : Type} (p : Prog FileOp FileRes α) : Prog FileOp FileRes (Option StoreTask) :=
  p >>= fun _ => .ret none

def storeProgram {α : Type} (p : StoreProg α) : Prog FileOp FileRes (Option StoreTask) :=
  done (interpret (storeFiles env) (outcome p))

def sessionProgram {α : Type} (p : SessionProg α) : Prog FileOp FileRes (Option StoreTask) :=
  done (interpret (sessionFiles env) (outcome p))

def downloadProgram (headers : HeaderMap) (digest : Digest) :
    Prog FileOp FileRes (Option StoreTask) :=
  downloadBlob text registry headers digest >>= fun answer =>
    .step (.respond digest answer) fun _ => .ret none

def taskBody : StoreTask → Prog FileOp FileRes (Option StoreTask)
  | .store bytes => done (outcome (BlobStore.storeBlob env bytes))
  | .storeForDigest digest bytes => done (outcome (BlobStore.storeBlobForDigest env digest bytes))
  | .prepare params => sessionProgram env (prepareBlobUploadSession params)
  | .append params payload => sessionProgram env (appendBlobUploadChunk params payload)
  | .finalize digest => sessionProgram env (finalizeBlobUploadSession env digest)
  | .touch kind digest lastReferencedAt => done (outcome (touchEntry kind digest lastReferencedAt))
  | .delete kind digest => done (outcome (deleteEntry kind digest))
  | .normalize config => storeProgram env (normalizePortageConfigSnapshots config)
  | .stage id config => storeProgram env (stageWorkorderRuntime id config)
  | .ingestParity id => storeProgram env (ingestFinalStateParity id)
  | .ingestDistfiles id => storeProgram env (ingestFetchedDistfiles id)
  | .cleanup id => done (outcome (diskTry (.clearRuntime id) "Failed to remove"))
  | .download headers digest => downloadProgram text registry headers digest

def storeSystem : System StoreTask FileOp FileRes StoreDisk FileOracle where
  sem := fileSem
  body := taskBody env text registry
  spawns := fun _ => none
  starts := fun _ => true

end Remerge.StoreTasks
