import Remerge.InodeFiles
import Remerge.UploadSessions

/-!
# The snapshot store as files

The calls into the blob and tree stores, into the staged runtime and into the
upload sessions as programs over file operations. A raw or encoded file is
written under a temporary name and linked into place, so that the first writer
wins; metadata is replaced by a rename; staging links raw files into the
runtime of a workorder and copies where a link is refused.

The state directory is one file system with hard links and without reflinks.
Operations may fail at any point, and a failed write may leave some bytes.
-/

set_option autoImplicit false

namespace Remerge.BlobStore
open StepProgram SnapshotTypes StagingPaths SnapshotStore UploadSessions InodeFiles

/-- The files below the state directory. Temporary names are told apart by their
uuid alone; staged files are named relative to the run's `snapshots` directory. -/
inductive StoreName where
  | raw (kind : EntryKind) (digest : Digest)
  | encoded (kind : EntryKind) (digest : Digest)
  | metadata (kind : EntryKind) (digest : Digest)
  | temp (uuid : Uuid)
  | staged (id : WorkorderId) (segments : List String)
  | workorderJson (id : WorkorderId)
  | session (digest : Digest)
  | part (digest : Digest)
  deriving DecidableEq, Repr

/-- JSON files are kept as the value they hold. -/
inductive Content where
  | bytes (b : Bytes)
  | metadata (m : StoredMetadata)
  | session (s : PersistedBlobUploadState)
  | workorder (config : PortageConfig)

def Content.size : Content → ℕ
  | .bytes b => b.length
  | _ => 0

abbrev StoreDisk : Type := Disk StoreName Content

inductive DiskOp where
  | stat (name : StoreName)
  | read (name : StoreName)
  | createDirs (name : StoreName)
  | writeTemp (content : Content)
  | writeFile (name : StoreName) (content : Content)
  | append (name : StoreName) (payload : Bytes)
  | hardLink (source target : StoreName)
  | createNew (name : StoreName)
  | fill (source target : StoreName)
  | copyFile (source target : StoreName)
  | tryReflink (source : StoreName) (id : WorkorderId) (target : StagedTarget)
  | rename (source target : StoreName)
  | remove (name : StoreName)
  | clearRuntime (id : WorkorderId)
  | list (kind : EntryKind)
  | readParityManifest (id : WorkorderId)
  | readDistfileManifest (id : WorkorderId)
  | readOutputBlob (id : WorkorderId) (digest : Digest)

@[reducible] def DiskVal : DiskOp → Type
  | .stat _ => ℕ
  | .read _ => Content
  | .writeTemp _ => Uuid
  | .tryReflink _ _ _ => Bool
  | .list _ => List Digest
  | .readParityManifest _ => ParityManifest
  | .readDistfileManifest _ => BTreeMap SnapshotEntry
  | .readOutputBlob _ _ => Bytes
  | _ => Unit

structure DownloadResponse where
  contentEncoding : Option String
  body : Bytes
  deriving DecidableEq, Repr

inductive FileOp where
  | now
  | disk (op : DiskOp)
  | respond (digest : Digest) (answer : Except (ℕ × String) DownloadResponse)

@[reducible] def FileRes : FileOp → Type
  | .now => Time
  | .disk op => Except Failure (DiskVal op)
  | .respond _ _ => Unit

/-- The clock, the next uuid, whether a call meets an I/O error and what a
failed write leaves, and what a worker left in its output directory. -/
structure FileOracle where
  time : Time
  uuid : Uuid
  fault : Bool
  torn : Option Bytes
  parity : ParityManifest
  distfiles : BTreeMap SnapshotEntry
  output : Bytes

def parents : StoreName → List StoreName
  | .staged id segments => segments.dropLast.inits.map (.staged id)
  | _ => []

def isDir (s : StoreDisk) (name : StoreName) : Bool :=
  s.names.keys.any fun other => (parents other).contains name

/-- `create_dir_all` on the parent of a file fails where a file is in the way. -/
def createDirsAnswer (s : StoreDisk) (name : StoreName) : Except Failure Unit :=
  if (parents name).all fun dir => (s.inode dir).isNone then .ok ()
  else if ((parents name).getLast?.bind s.inode).isSome then .error (.io .alreadyExists "")
  else .error (.io .notADirectory "")

def inRuntime (id : WorkorderId) : StoreName → Bool
  | .staged id' _ => id' == id
  | .workorderJson id' => id' == id
  | _ => false

def appended (s : StoreDisk) (name : StoreName) (payload : Bytes) : StoreDisk :=
  match s.read name with
  | some (.bytes old) => s.write name (.bytes (old++payload))
  | _ => s.write name (.bytes payload)

def metadataDigest (kind : EntryKind) : StoreName → Option Digest
  | .metadata kind' digest => if kind' = kind then some digest else none
  | _ => none

def found {α : Type} : Option α → Except Failure α
  | some a => .ok a
  | none => .error (.io .notFound "")

def diskEffect (w : FileOracle) (s : StoreDisk) :
    (op : DiskOp) → StoreDisk × Except Failure (DiskVal op)
  | .stat name => (s,found ((s.read name).map Content.size))
  | .read name => (s,found (s.read name))
  | .createDirs name => (s,createDirsAnswer s name)
  | .writeTemp content => (s.create (.temp w.uuid) content,.ok w.uuid)
  | .writeFile name content => (s.write name content,.ok ())
  | .append name payload => (appended s name payload,.ok ())
  | .hardLink source target =>
    if (s.inode source).isNone then (s,.error (.io .notFound ""))
    else if (s.inode target).isSome || isDir s target then (s,.error (.io .alreadyExists ""))
    else (s.link source target,.ok ())
  | .createNew name =>
    if (s.inode name).isSome then (s,.error (.io .alreadyExists ""))
    else (s.create name (.bytes []),.ok ())
  | .fill source target =>
    if (s.inode source).isNone then (s,.error (.io .notFound ""))
    else (s.copy (.bytes []) source target,.ok ())
  | .copyFile source target =>
    if (s.inode source).isNone then (s,.error (.io .notFound ""))
    else if isDir s target then (s,.error (.io .isADirectory ""))
    else (s.copy (.bytes []) source target,.ok ())
  | .tryReflink source _ target =>
    if (s.inode source).isNone then (s,.error (.io .notFound ""))
    else if target.directory then (s,.error (.io .isADirectory ""))
    -- The file made for the attempt is removed again.
    else (s,.ok false)
  | .rename source target =>
    if (s.inode source).isNone then (s,.error (.io .notFound ""))
    else (s.rename source target,.ok ())
  | .remove name =>
    if (s.inode name).isNone then (s,.error (.io .notFound ""))
    else (s.remove name,.ok ())
  | .clearRuntime id => (s.keep fun name => !inRuntime id name,.ok ())
  | .list kind => (s,.ok (s.names.keys.filterMap (metadataDigest kind)))
  | .readParityManifest _ => (s,.ok w.parity)
  | .readDistfileManifest _ => (s,.ok w.distfiles)
  | .readOutputBlob _ _ => (s,.ok w.output)

/-- What a call leaves that meets an I/O error: a write may have got some of its
bytes out. -/
def afterFault (w : FileOracle) (s : StoreDisk) : DiskOp → StoreDisk
  | .writeTemp _ => w.torn.elim s fun b => s.create (.temp w.uuid) (.bytes b)
  | .writeFile name _ => w.torn.elim s fun b => s.write name (.bytes b)
  | .append name _ => w.torn.elim s fun b => appended s name b
  | _ => s

def DiskOp.makesTemp : DiskOp → Bool
  | .writeTemp _ => true
  | _ => false

/-- Uuids are new, and kinds of errors that report what is there are not faults. -/
def fileSem (o : FileOp) (w : FileOracle) (s : StoreDisk) : Option (StoreDisk × FileRes o) :=
  match o with
  | .now => some (s,w.time)
  | .respond _ _ => some (s,())
  | .disk op =>
    if op.makesTemp && (s.inode (.temp w.uuid)).isSome then none
    else if w.fault then some (afterFault w s op,.error (.io .other ""))
    else some (diskEffect w s op)

abbrev FileProg (α : Type) : Type := Fallible FileOp FileRes Failure α

def Failure.withContext (context : String) : Failure → Failure
  | .io kind _ => .io kind context
  | .bail message => .bail message

def Failure.isKind (kind : IoKind) : Failure → Bool
  | .io kind' _ => kind' == kind
  | .bail _ => false

def diskCall (op : DiskOp) : Prog FileOp FileRes (Except Failure (DiskVal op)) :=
  perform (FileOp.disk op)

def diskTry (op : DiskOp) (context : String) : FileProg (DiskVal op) :=
  ExceptT.mk (diskCall op >>= fun r => .ret (r.mapError (Failure.withContext context)))

def utcNow : FileProg Time := ExceptT.lift (perform FileOp.now)

def validated (digest : Digest) : FileProg Unit :=
  if validDigest digest = false then throw (invalidDigest digest) else pure ()

def removeFileIfExists (name : StoreName) : FileProg Unit := ExceptT.mk do
  match ← diskCall (.remove name) with
  | .ok () => pure (.ok ())
  | .error failure =>
    if failure.isNotFoundError then pure (.ok ())
    else pure (.error (Failure.withContext "Failed to remove" failure))

def copyIntoPlace (source target : StoreName) : FileProg Bool := ExceptT.mk do
  match ← diskCall (.createNew target) with
  | .ok () => outcome do
      let _ ← diskTry (.stat source) "Failed to open"
      diskTry (.fill source target) "Failed to copy"
      pure true
  | .error failure =>
    if Failure.isKind .alreadyExists failure then pure (.ok false)
    else pure (.error (Failure.withContext "Failed to create" failure))

def linkOrCopyIntoPlace (source target : StoreName) : FileProg Bool := ExceptT.mk do
  match ← diskCall (.hardLink source target) with
  | .ok () => pure (.ok true)
  | .error failure =>
    if Failure.isKind .alreadyExists failure then pure (.ok false)
    else if Failure.isKind .crossesDevices failure then outcome (copyIntoPlace source target)
    else pure (.error (Failure.withContext "Failed to link" failure))

/-- The temporary file goes whether or not it was linked. -/
def placeTemp (uuid : Uuid) (target : StoreName) : FileProg Bool := ExceptT.mk do
  let placed ← outcome (linkOrCopyIntoPlace (.temp uuid) target)
  let _ ← diskCall (.remove (.temp uuid))
  pure placed

def writeBytesAtomically (target : StoreName) (bytes : Bytes) : FileProg Bool := do
  let uuid ← diskTry (.writeTemp (.bytes bytes)) "Failed to write"
  placeTemp uuid target

def moveTemp (uuid : Uuid) (target : StoreName) : FileProg Unit := ExceptT.mk do
  match ← diskCall (.rename (.temp uuid) target) with
  | .ok () => pure (.ok ())
  | .error failure => do
    let _ ← diskCall (.remove (.temp uuid))
    pure (.error (Failure.withContext "Failed to move" failure))

def writeBytesWithAtomicReplace (target : StoreName) (content : Content) : FileProg Unit := do
  let uuid ← diskTry (.writeTemp content) "Failed to write"
  moveTemp uuid target

section
variable (env : Codecs) (kind : EntryKind)

def loadMetadata (digest : Digest) : FileProg StoredMetadata := do
  validated digest
  match ← diskTry (.read (.metadata kind digest)) "Failed to read" with
  | .metadata metadata => pure metadata
  | _ => throw (.bail "Failed to parse")

def persistMetadata (digest : Digest) (metadata : StoredMetadata) : FileProg Unit := do
  validated digest
  diskTry (.createDirs (.metadata kind digest)) "Failed to create"
  writeBytesWithAtomicReplace (.metadata kind digest) (.metadata metadata)

/-- Only blobs are compared with the metadata that is there. -/
def refusedMetadata (digest : Digest) (rawSizeBytes : ℕ) (metadata : StoredMetadata) :
    Option Failure :=
  match kind with
  | .blob => metadataMismatch digest rawSizeBytes metadata
  | .tree => none

def newMetadata (digest : Digest) (rawSizeBytes : ℕ) : FileProg StoredMetadata := do
  let now ← utcNow
  persistMetadata kind digest ⟨digest,rawSizeBytes,now,none⟩
  pure ⟨digest,rawSizeBytes,now,none⟩

def ensureMetadata (digest : Digest) (rawSizeBytes : ℕ) : FileProg StoredMetadata := ExceptT.mk do
  match ← outcome (loadMetadata kind digest) with
  | .ok metadata =>
    match refusedMetadata kind digest rawSizeBytes metadata with
    | some failure => pure (.error failure)
    | none => pure (.ok metadata)
  | .error failure =>
    if failure.isNotFoundError then outcome (newMetadata kind digest rawSizeBytes)
    else pure (.error failure)

def touchEntry (digest : Digest) (lastReferencedAt : Time) : FileProg StoredMetadata := do
  validated digest
  let rawSizeBytes ← diskTry (.stat (.raw kind digest)) "Failed to stat"
  let metadata ← ensureMetadata kind digest rawSizeBytes
  let metadata := { metadata with lastReferencedAt := lastReferencedAt }
  persistMetadata kind digest metadata
  pure metadata

def storeEncodedBlobVariant (digest : Digest) (rawSizeBytes : ℕ) (bytes : Bytes) :
    FileProg Unit := do
  let metadata ← ensureMetadata .blob digest rawSizeBytes
  if metadata.rawSizeBytes ≠ rawSizeBytes then
    throw (.bail (s!"blob raw size mismatch for {digest}: expected " ++
      s!"{metadata.rawSizeBytes}, got {rawSizeBytes}"))
  validated digest
  diskTry (.createDirs (.encoded .blob digest)) "Failed to create"
  let _ ← writeBytesAtomically (.encoded .blob digest) bytes
  persistMetadata .blob digest { metadata with encodedVariants := some bytes.length }

/-- The tree store writes its variant in place. -/
def writeEncodedTree (digest : Digest) (metadata : StoredMetadata) (bytes : Bytes) :
    FileProg Unit := do
  diskTry (.createDirs (.encoded .tree digest)) "Failed to create"
  diskTry (.writeFile (.encoded .tree digest) (.bytes bytes)) "Failed to write"
  persistMetadata .tree digest { metadata with encodedVariants := some bytes.length }

def hasFile (name : StoreName) : FileProg Bool := ExceptT.mk do
  match ← diskCall (.stat name) with
  | .ok _ => pure (.ok true)
  | .error _ => pure (.ok false)

def hasVariant (digest : Digest) (metadata : StoredMetadata) : FileProg Bool :=
  if metadata.encodedVariants.isSome then hasFile (.encoded kind digest) else pure false

def maybeStoreZstdVariant (digest : Digest) (bytes : Bytes) : FileProg Unit := do
  let metadata ← ensureMetadata kind digest bytes.length
  validated digest
  let present ← hasVariant kind digest metadata
  match present,encodeZstdIfWorthwhile env bytes with
  | false,some compressed =>
    match kind with
    | .blob => storeEncodedBlobVariant digest bytes.length compressed
    | .tree => writeEncodedTree digest metadata compressed
  | _,_ => pure ()

def completeEntry (digest : Digest) (bytes : Bytes) : FileProg Unit := do
  let _ ← ensureMetadata kind digest bytes.length
  maybeStoreZstdVariant env kind digest bytes
  let now ← utcNow
  let _ ← touchEntry kind digest now

/-- The common part of `store_blob_for_digest` and `store_tree`. -/
def storeEntry (digest : Digest) (bytes : Bytes) : FileProg Bool := do
  if ← hasFile (.raw kind digest) then
    completeEntry env kind digest bytes
    pure false
  else
    diskTry (.createDirs (.raw kind digest)) "Failed to create"
    let uploaded ← writeBytesAtomically (.raw kind digest) bytes
    completeEntry env kind digest bytes
    pure uploaded

def storeBlobForDigest (digest : Digest) (bytes : Bytes) : FileProg Bool := do
  validated digest
  if env.sha256 bytes ≠ digest then
    throw (.bail s!"blob digest mismatch: expected {digest}, got {env.sha256 bytes}")
  storeEntry env .blob digest bytes

def storeBlob (bytes : Bytes) : FileProg Digest := do
  let _ ← storeBlobForDigest env (env.sha256 bytes) bytes
  pure (env.sha256 bytes)

def storeTree (entries : BTreeMap Digest) : FileProg Digest := do
  validated (treeDigest env entries)
  let _ ← storeEntry env .tree (treeDigest env entries) (env.treeJson entries.toList)
  pure (treeDigest env entries)

def removeListedVariant (digest : Digest) : Except Failure StoredMetadata → FileProg Unit
  | .ok ⟨_,_,_,some _⟩ => removeFileIfExists (.encoded kind digest)
  | _ => pure ()

def deleteEntry (digest : Digest) : FileProg Unit := ExceptT.mk do
  let metadata ← outcome (loadMetadata kind digest)
  outcome do
    validated digest
    removeFileIfExists (.raw kind digest)
    removeListedVariant kind digest metadata
    removeFileIfExists (.metadata kind digest)

def loadRecords : List Digest → FileProg (List (Digest × StoredMetadata))
  | [] => pure []
  | digest::rest => do
    let metadata ← loadMetadata kind digest
    let records ← loadRecords rest
    pure ((digest,metadata)::records)

def listMetadata : FileProg (List (Digest × StoredMetadata)) := do
  let digests ← diskTry (.list kind) "Failed to read"
  loadRecords kind digests

def rawSize (digest : Digest) : FileProg ℕ := do
  validated digest
  diskTry (.stat (.raw kind digest)) "Failed to stat"

end

def ensureBlobExists (digest : Digest) : FileProg Unit := do
  validated digest
  let _ ← diskTry (.stat (.raw .blob digest)) s!"Missing referenced blob {digest}"

/-- A target that exists is copied over. -/
def linkOrCopyIntoTarget (source target : StoreName) : FileProg Unit := ExceptT.mk do
  match ← diskCall (.hardLink source target) with
  | .ok () => pure (.ok ())
  | .error failure =>
    if Failure.isKind .alreadyExists failure || Failure.isKind .crossesDevices failure then
      outcome (diskTry (.copyFile source target) "Failed to copy")
    else pure (.error (Failure.withContext "Failed to link" failure))

def linkBlobIntoTarget (source : StoreName) (id : WorkorderId) (target : StagedTarget) :
    FileProg Unit := do
  diskTry (.createDirs (.staged id target.segments)) "Failed to create"
  if ← diskTry (.tryReflink source id target) "Failed to reflink" then pure ()
  else linkOrCopyIntoTarget source (.staged id target.segments)

def materializeBlobForDigest (id : WorkorderId) (target : StagedTarget) (digest : Digest) :
    FileProg Unit := do
  ensureBlobExists digest
  linkBlobIntoTarget (.raw .blob digest) id target

def clearRuntimeDir (id : WorkorderId) : FileProg Unit := do
  diskTry (.clearRuntime id) "Failed to clear"
  diskTry (.createDirs (.workorderJson id)) ""

def storeFiles (env : Codecs) : (o : StoreOp) → Prog FileOp FileRes (StoreRes o)
  | .now => perform FileOp.now
  | .ensureBlobExists digest => outcome (ensureBlobExists digest)
  | .loadBlobMetadata digest => outcome (loadMetadata .blob digest)
  | .storeBlob bytes => outcome (storeBlob env bytes)
  | .storeBlobForDigest digest bytes => outcome (storeBlobForDigest env digest bytes)
  | .storeTree entries => outcome (storeTree env entries)
  | .rawSize kind digest => outcome (rawSize kind digest)
  | .touch kind digest lastReferencedAt => outcome (touchEntry kind digest lastReferencedAt)
  | .listMetadata kind => outcome (listMetadata kind)
  | .delete kind digest => outcome (deleteEntry kind digest)
  | .clearRuntimeDir id => outcome (clearRuntimeDir id)
  | .removeRuntimeDir id => outcome (diskTry (.clearRuntime id) "Failed to remove")
  | .materialize id target digest => outcome (materializeBlobForDigest id target digest)
  | .writeWorkorderJson id config =>
    outcome (diskTry (.writeFile (.workorderJson id) (.workorder config)) "Failed to write")
  | .readParityManifest id => outcome (diskTry (.readParityManifest id) "Failed to read")
  | .readDistfileManifest id => outcome (diskTry (.readDistfileManifest id) "Failed to read")
  | .readOutputBlob id digest => outcome (diskTry (.readOutputBlob id digest) "Failed to read")

def hasBlob (digest : Digest) : FileProg Bool := do
  validated digest
  hasFile (.raw .blob digest)

def loadBlobUploadState (digest : Digest) : FileProg (Option PersistedBlobUploadState) :=
  ExceptT.mk do
    match ← diskCall (.read (.session digest)) with
    | .ok (.session state) => pure (.ok (some state))
    | .ok _ => pure (.error (.bail "Failed to parse"))
    | .error failure =>
      if failure.isNotFoundError then pure (.ok none)
      else pure (.error (Failure.withContext "Failed to read" failure))

/-- A state that cannot be moved into place leaves its temporary file. -/
def persistBlobUploadState (state : PersistedBlobUploadState) : FileProg Unit := do
  diskTry (.createDirs (.session state.digest)) "Failed to create"
  let uuid ← diskTry (.writeTemp (.session state)) "Failed to write"
  diskTry (.rename (.temp uuid) (.session state.digest)) "Failed to persist"

def readPart (digest : Digest) : FileProg Bytes := do
  match ← diskTry (.read (.part digest)) "Failed to read" with
  | .bytes bytes => pure bytes
  | _ => throw (.bail "Failed to read")

def sessionFiles (env : Codecs) : (o : SessionOp) → Prog FileOp FileRes (SessionRes o)
  | .hasBlob digest => outcome (hasBlob digest)
  | .loadState digest => outcome (loadBlobUploadState digest)
  | .persistState state => outcome (persistBlobUploadState state)
  | .statPart digest => outcome (diskTry (.stat (.part digest)) "Failed to stat")
  | .appendPart digest payload =>
    outcome (diskTry (.append (.part digest) payload) "Failed to append to")
  | .readPart digest => outcome (readPart digest)
  | .removeState digest => outcome (removeFileIfExists (.session digest))
  | .removePart digest => outcome (removeFileIfExists (.part digest))
  | .storeBlobForDigest digest bytes => outcome (storeBlobForDigest env digest bytes)
  | .storeEncodedVariant digest rawSizeBytes bytes =>
    outcome (storeEncodedBlobVariant digest rawSizeBytes bytes)

end Remerge.BlobStore
