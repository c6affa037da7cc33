import Remerge.SnapshotStore

/-!
# Manifests, staging and ingest

The server's runtime functions over the calls into the snapshot store. A
submitted configuration names its data inline, by a manifest or by references;
`effectiveSnapshotManifest` turns all three into one manifest, storing what is
inline and looking up the rest. Errors end a function where the source has `?`.
-/

set_option autoImplicit false

namespace Remerge.SnapshotRuntime
open StepProgram SnapshotTypes StagingPaths SnapshotStore

abbrev StoreProg (α : Type) : Type := Fallible StoreOp StoreRes Failure α

def storeCall (o : StoreOp) : Prog StoreOp StoreRes (StoreRes o) := perform o

def ensureBlobExists (digest : Digest) : StoreProg Unit :=
  ExceptT.mk (storeCall (.ensureBlobExists digest))

def loadBlobMetadata (digest : Digest) : StoreProg StoredMetadata :=
  ExceptT.mk (storeCall (.loadBlobMetadata digest))

def storeBlob (bytes : Bytes) : StoreProg Digest := ExceptT.mk (storeCall (.storeBlob bytes))

def storeBlobForDigest (digest : Digest) (bytes : Bytes) : StoreProg Bool :=
  ExceptT.mk (storeCall (.storeBlobForDigest digest bytes))

def storeTree (entries : BTreeMap Digest) : StoreProg Digest :=
  ExceptT.mk (storeCall (.storeTree entries))

def materializeBlobForDigest (id : WorkorderId) (target : StagedTarget) (digest : Digest) :
    StoreProg Unit :=
  ExceptT.mk (storeCall (.materialize id target digest))

def utcNow : StoreProg Time := ExceptT.lift (storeCall .now)

def fromExcept {α : Type} (r : Except Failure α) : StoreProg α := ExceptT.mk (.ret r)

def digestsOf (entries : BTreeMap SnapshotEntry) : List Digest :=
  entries.toList.map fun e => e.2.digest

def refsOf (entries : BTreeMap SnapshotEntry) : BTreeMap Digest :=
  entries.map fun _ e => e.digest

/-- The sorted keys of several maps, each once. -/
def keySet (keys : List String) : List String :=
  (keys.foldl (fun s k => s.insert k ()) (∅ : BTreeMap Unit)).keys

def treeMismatch (repoName : String) : Failure :=
  .bail s!"repo snapshot tree digest mismatch for '{repoName}'"

/-- A tree digest the client announced must be the one that was stored. -/
def checkTree (repoName : String) (expected : Option Digest) (stored : Digest) : StoreProg Unit :=
  match expected with
  | some digest => if stored ≠ digest then throw (treeMismatch repoName) else pure ()
  | none => pure ()

def announced (digest : Option Digest) : Option Digest := digest.filter (· ≠ "")

def storeInlineEntries (config : PortageConfig) (repoName : String)
    (existing : Option RepoSnapshotManifest) :
    List (String × String) → BTreeMap SnapshotEntry → StoreProg (BTreeMap SnapshotEntry)
  | [], entries => pure entries
  | (relativePath,content)::rest, entries => do
    let bytes := content.toUTF8.toList
    let digest ← storeBlob bytes
    let expected := (config.repoSnapshotRefs[repoName]?).bind fun refs => refs[relativePath]?
    if expected.any (· ≠ digest) then
      throw (.bail s!"repo snapshot refs for '{repoName}' do not match inline payloads")
    let old := existing.bind fun repo => repo.entries[relativePath]?
    storeInlineEntries config repoName existing rest
      (entries.insert relativePath ⟨digest,bytes.length,(old.map (·.mtimeSecs)).getD 0⟩)

def ensureBlobsExist : List Digest → StoreProg Unit
  | [] => pure ()
  | digest::rest => do
    ensureBlobExists digest
    ensureBlobsExist rest

def loadReferencedEntries :
    List (String × Digest) → BTreeMap SnapshotEntry → StoreProg (BTreeMap SnapshotEntry)
  | [], entries => pure entries
  | (relativePath,digest)::rest, entries => do
    let metadata ← loadBlobMetadata digest
    loadReferencedEntries rest (entries.insert relativePath ⟨digest,metadata.rawSizeBytes,0⟩)

def buildRepoSnapshotManifest (config : PortageConfig) (manifest : SnapshotManifest)
    (repoName : String) : StoreProg RepoSnapshotManifest :=
  let existing := manifest.repoSnapshots[repoName]?
  match config.repoSnapshots[repoName]?,existing,config.repoSnapshotRefs[repoName]? with
  | some snapshot,_,_ => do
    let entries ← storeInlineEntries config repoName existing snapshot.toList ∅
    let tree ← storeTree (refsOf entries)
    checkTree repoName
      ((announced (existing.map (·.treeDigest))).or
        (announced config.repoSnapshotTrees[repoName]?)) tree
    pure ⟨tree,entries⟩
  | none,some repo,_ => do
    ensureBlobsExist (digestsOf repo.entries)
    let tree ← storeTree (refsOf repo.entries)
    checkTree repoName (announced (some repo.treeDigest)) tree
    pure ⟨tree,repo.entries⟩
  | none,none,some refs => do
    let entries ← loadReferencedEntries refs.toList ∅
    let tree ← storeTree refs
    checkTree repoName (announced config.repoSnapshotTrees[repoName]?) tree
    pure ⟨tree,entries⟩
  | none,none,none => pure RepoSnapshotManifest.default

def buildDistfileSnapshotEntry (config : PortageConfig) (manifest : SnapshotManifest)
    (name : String) : StoreProg (Option SnapshotEntry) :=
  let existing := manifest.distfiles[name]?
  match config.distfileSnapshots[name]?,existing,config.distfileSnapshotRefs[name]? with
  | some bytes,_,expected => do
    let digest ← storeBlob bytes
    if expected.any (· ≠ digest) then
      throw (.bail s!"distfile snapshot digest mismatch for '{name}'")
    pure (some ⟨digest,bytes.length,(existing.map (·.mtimeSecs)).getD 0⟩)
  | none,some entry,_ => do
    ensureBlobExists entry.digest
    pure (some entry)
  | none,none,some digest => do
    let metadata ← loadBlobMetadata digest
    pure (some ⟨digest,metadata.rawSizeBytes,0⟩)
  | none,none,none => pure none

def addRepos (config : PortageConfig) : List String → SnapshotManifest → StoreProg SnapshotManifest
  | [], manifest => pure manifest
  | repoName::rest, manifest => do
    let repo ← buildRepoSnapshotManifest config manifest repoName
    addRepos config rest
      (if repo.entries.isEmpty then manifest
      else { manifest with repoSnapshots := manifest.repoSnapshots.insert repoName repo })

def addDistfiles (config : PortageConfig) :
    List String → SnapshotManifest → StoreProg SnapshotManifest
  | [], manifest => pure manifest
  | name::rest, manifest => do
    match ← buildDistfileSnapshotEntry config manifest name with
    | none => addDistfiles config rest manifest
    | some entry =>
      addDistfiles config rest
        { manifest with distfiles := manifest.distfiles.insert name entry }

def repoNames (config : PortageConfig) : List String :=
  keySet (config.repoSnapshots.keys++config.repoSnapshotRefs.keys++
    config.snapshotManifest.repoSnapshots.keys)

def distfileNames (config : PortageConfig) : List String :=
  keySet (config.distfileSnapshots.keys++config.distfileSnapshotRefs.keys++
    config.snapshotManifest.distfiles.keys)

def effectiveSnapshotManifest (config : PortageConfig) : StoreProg SnapshotManifest := do
  if config.snapshotManifest.version ≠ snapshotManifestVersionV1 then
    throw (.bail s!"unsupported snapshot manifest version {config.snapshotManifest.version}")
  let manifest ← addRepos config (repoNames config) config.snapshotManifest
  addDistfiles config (distfileNames config) manifest

def withManifest (manifest : SnapshotManifest) : PortageConfig where
  repoSnapshots := ∅
  distfileSnapshots := ∅
  snapshotManifest := manifest
  repoSnapshotRefs := manifest.repoSnapshots.map fun _ repo => refsOf repo.entries
  repoSnapshotTrees := manifest.repoSnapshots.map fun _ repo => repo.treeDigest
  distfileSnapshotRefs := refsOf manifest.distfiles

def normalizePortageConfigSnapshots (config : PortageConfig) : StoreProg PortageConfig := do
  let manifest ← effectiveSnapshotManifest config
  pure (withManifest manifest)

def manifestBlobs (manifest : SnapshotManifest) : List Digest :=
  (manifest.repoSnapshots.toList.flatMap fun repo => digestsOf repo.2.entries)++
    digestsOf manifest.distfiles

def manifestTrees (manifest : SnapshotManifest) : List Digest :=
  (manifest.repoSnapshots.toList.map fun repo => repo.2.treeDigest).filter (· ≠ "")

def totalSize (kind : EntryKind) : List Digest → ℕ → StoreProg ℕ
  | [], total => pure total
  | digest::rest, total => do
    let size ← (ExceptT.mk (storeCall (.rawSize kind digest)) : StoreProg ℕ)
    totalSize kind rest (total+size)

def collectSnapshotReferences (config : PortageConfig) : StoreProg SnapshotReferenceSet := do
  let manifest ← effectiveSnapshotManifest config
  let blobDigests := keySet (manifestBlobs manifest)
  let treeDigests := keySet (manifestTrees manifest)
  let totalBlobBytes ← totalSize .blob blobDigests 0
  let totalTreeBytes ← totalSize .tree treeDigests 0
  let now ← utcNow
  pure ⟨blobDigests,treeDigests,totalBlobBytes,totalTreeBytes,now⟩

def touchAll (kind : EntryKind) (lastReferencedAt : Time) : List Digest → StoreProg Unit
  | [] => pure ()
  | digest::rest => do
    let _ ← (ExceptT.mk (storeCall (.touch kind digest lastReferencedAt)) :
      StoreProg StoredMetadata)
    touchAll kind lastReferencedAt rest

def touchSnapshotReferences (references : SnapshotReferenceSet) : StoreProg Unit := do
  touchAll .blob references.lastReferencedAt references.blobDigests
  touchAll .tree references.lastReferencedAt references.treeDigests

def stageRepoEntries (id : WorkorderId) (base : List String) :
    List (String × SnapshotEntry) → StoreProg Unit
  | [] => pure ()
  | (relativePath,entry)::rest => do
    let target ← fromExcept (repoTarget base relativePath)
    materializeBlobForDigest id target entry.digest
    stageRepoEntries id base rest

def stageRepos (id : WorkorderId) :
    List (String × RepoSnapshotManifest) → BTreeMap (BTreeMap Digest) → BTreeMap Digest →
    StoreProg (BTreeMap (BTreeMap Digest) × BTreeMap Digest)
  | [], refs, trees => pure (refs,trees)
  | (repoName,repo)::rest, refs, trees => do
    let base ← fromExcept (repoBase repoName)
    stageRepoEntries id base repo.entries.toList
    if repo.entries.isEmpty then stageRepos id rest refs trees
    else do
      let tree ← storeTree (refsOf repo.entries)
      checkTree repoName (announced (some repo.treeDigest)) tree
      stageRepos id rest (refs.insert repoName (refsOf repo.entries)) (trees.insert repoName tree)

def stageDistfiles (id : WorkorderId) :
    List (String × SnapshotEntry) → BTreeMap Digest → StoreProg (BTreeMap Digest)
  | [], refs => pure refs
  | (name,entry)::rest, refs => do
    let target ← fromExcept (distfileTarget name)
    materializeBlobForDigest id target entry.digest
    stageDistfiles id rest (refs.insert name entry.digest)

def stageWorkorderRuntime (id : WorkorderId) (config : PortageConfig) :
    StoreProg SnapshotReferenceSet := do
  (ExceptT.mk (storeCall (.clearRuntimeDir id)) : StoreProg Unit)
  let manifest ← effectiveSnapshotManifest config
  let (repoRefs,repoTrees) ← stageRepos id manifest.repoSnapshots.toList ∅ ∅
  let distfileRefs ← stageDistfiles id manifest.distfiles.toList ∅
  let staged : PortageConfig := ⟨∅,∅,manifest,repoRefs,repoTrees,distfileRefs⟩
  (ExceptT.mk (storeCall (.writeWorkorderJson id staged)) : StoreProg Unit)
  let references ← collectSnapshotReferences staged
  touchSnapshotReferences references
  pure references

def ingestBlobs (id : WorkorderId) : List Digest → StoreProg Unit
  | [] => pure ()
  | digest::rest => do
    let bytes ← (ExceptT.mk (storeCall (.readOutputBlob id digest)) : StoreProg Bytes)
    let _ ← storeBlobForDigest digest bytes
    ingestBlobs id rest

def ingestFinalStateParity (id : WorkorderId) : StoreProg ParityManifest := do
  let manifest ← (ExceptT.mk (storeCall (.readParityManifest id)) : StoreProg ParityManifest)
  ingestBlobs id (manifest.files.toList.map fun e => e.2.digest)
  ingestBlobs id (manifest.symlinks.toList.map fun e => e.2.digest)
  pure manifest

def ingestFetchedDistfiles (id : WorkorderId) : StoreProg (BTreeMap SnapshotEntry) := do
  let manifest ← (ExceptT.mk (storeCall (.readDistfileManifest id)) :
    StoreProg (BTreeMap SnapshotEntry))
  ingestBlobs id (digestsOf manifest)
  pure manifest

end Remerge.SnapshotRuntime
