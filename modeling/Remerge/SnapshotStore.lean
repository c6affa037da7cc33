import Remerge.StagingPaths

/-!
# Calls into the snapshot store

The server uses the blob and tree stores through a few calls. Here each call
is one operation, and `storeEffect` says what a call that meets no I/O error
does to the set of stored entries. `BlobStore` gives the same calls as file
programs.
-/

set_option autoImplicit false

namespace Remerge.SnapshotStore
open SnapshotTypes StagingPaths

def minZstdVariantBytes : ℕ := 64*1024

def compressionIsWorthwhile (rawSizeBytes encodedSizeBytes : ℕ) : Bool :=
  encodedSizeBytes < rawSizeBytes && rawSizeBytes*10 ≤ (rawSizeBytes-encodedSizeBytes)*100

def encodeZstdIfWorthwhile (env : Codecs) (raw : Bytes) : Option Bytes :=
  if raw.length < minZstdVariantBytes then none
  else if compressionIsWorthwhile raw.length (env.encodeZstd raw).length then
    some (env.encodeZstd raw)
  else none

inductive StoreOp where
  | now
  | ensureBlobExists (digest : Digest)
  | loadBlobMetadata (digest : Digest)
  | storeBlob (bytes : Bytes)
  | storeBlobForDigest (digest : Digest) (bytes : Bytes)
  | storeTree (entries : BTreeMap Digest)
  | rawSize (kind : EntryKind) (digest : Digest)
  | touch (kind : EntryKind) (digest : Digest) (lastReferencedAt : Time)
  | listMetadata (kind : EntryKind)
  | delete (kind : EntryKind) (digest : Digest)
  | clearRuntimeDir (id : WorkorderId)
  | removeRuntimeDir (id : WorkorderId)
  | materialize (id : WorkorderId) (target : StagedTarget) (digest : Digest)
  | writeWorkorderJson (id : WorkorderId) (config : PortageConfig)
  | readParityManifest (id : WorkorderId)
  | readDistfileManifest (id : WorkorderId)
  | readOutputBlob (id : WorkorderId) (digest : Digest)

@[reducible] def StoreRes : StoreOp → Type
  | .now => Time
  | .ensureBlobExists _ => Except Failure Unit
  | .loadBlobMetadata _ => Except Failure StoredMetadata
  | .storeBlob _ => Except Failure Digest
  | .storeBlobForDigest _ _ => Except Failure Bool
  | .storeTree _ => Except Failure Digest
  | .rawSize _ _ => Except Failure ℕ
  | .touch _ _ _ => Except Failure StoredMetadata
  | .listMetadata _ => Except Failure (List (Digest × StoredMetadata))
  | .delete _ _ => Except Failure Unit
  | .clearRuntimeDir _ => Except Failure Unit
  | .removeRuntimeDir _ => Except Failure Unit
  | .materialize _ _ _ => Except Failure Unit
  | .writeWorkorderJson _ _ => Except Failure Unit
  | .readParityManifest _ => Except Failure ParityManifest
  | .readDistfileManifest _ => Except Failure (BTreeMap SnapshotEntry)
  | .readOutputBlob _ _ => Except Failure Bytes

/-- What an oracle decides about a call: the time it runs at, whether it meets
an I/O error, and what a worker left behind in its output directory. -/
structure StoreOracle where
  time : Time
  fault : Option Failure
  parity : ParityManifest
  distfiles : BTreeMap SnapshotEntry
  output : Bytes

abbrev StoredEntries : Type := Table (EntryKind × Digest) StoredMetadata

def treeDigest (env : Codecs) (entries : BTreeMap Digest) : Digest :=
  env.sha256 (env.treeJson entries.toList)

def missingBlob (digest : Digest) : Failure :=
  .io .notFound s!"Missing referenced blob {digest}"

def refreshed (env : Codecs) (digest : Digest) (bytes : Bytes) (now : Time) :
    Option StoredMetadata → StoredMetadata
  | none => ⟨digest,bytes.length,now,(encodeZstdIfWorthwhile env bytes).map List.length⟩
  | some old =>
    { old with
      lastReferencedAt := now
      encodedVariants :=
        old.encodedVariants.or ((encodeZstdIfWorthwhile env bytes).map List.length) }

/-- `ensure_blob_metadata` refuses metadata of another digest or size. -/
def metadataMismatch (digest : Digest) (rawSizeBytes : ℕ) (metadata : StoredMetadata) :
    Option Failure :=
  if metadata.canonicalDigest ≠ digest then
    some (.bail s!"blob metadata digest mismatch: expected {digest}, got {metadata.canonicalDigest}")
  else if metadata.rawSizeBytes ≠ rawSizeBytes then
    some (.bail
      s!"blob metadata size mismatch for {digest}: expected {rawSizeBytes}, got {metadata.rawSizeBytes}")
  else none

def storeBlobEffect (env : Codecs) (now : Time) (digest : Digest) (bytes : Bytes)
    (s : StoredEntries) : StoredEntries × Except Failure Bool :=
  if validDigest digest = false then (s,.error (invalidDigest digest))
  else if env.sha256 bytes ≠ digest then
    (s,.error (.bail s!"blob digest mismatch: expected {digest}, got {env.sha256 bytes}"))
  else match s.lookup (.blob,digest) with
    | none => (s.insert (.blob,digest) (refreshed env digest bytes now none),.ok true)
    | some old =>
      match metadataMismatch digest bytes.length old with
      | some failure => (s,.error failure)
      | none => (s.insert (.blob,digest) (refreshed env digest bytes now (some old)),.ok false)

/-- Calls on one stored entry start by building its path from the digest. -/
def entryEffect {α : Type} (s : StoredEntries) (kind : EntryKind) (digest : Digest)
    (missing : Failure) (found : StoredMetadata → StoredEntries × Except Failure α) :
    StoredEntries × Except Failure α :=
  if validDigest digest = false then (s,.error (invalidDigest digest))
  else match s.lookup (kind,digest) with
    | none => (s,.error missing)
    | some metadata => found metadata

def storeEffect (env : Codecs) (w : StoreOracle) (s : StoredEntries) :
    (o : StoreOp) → StoredEntries × StoreRes o
  | .now => (s,w.time)
  | .ensureBlobExists digest =>
    entryEffect s .blob digest (missingBlob digest) fun _ => (s,.ok ())
  | .loadBlobMetadata digest =>
    entryEffect s .blob digest (.io .notFound "Failed to read") fun metadata =>
      (s,.ok metadata)
  | .storeBlob bytes =>
    let stored := storeBlobEffect env w.time (env.sha256 bytes) bytes s
    (stored.1,stored.2.map fun _ => env.sha256 bytes)
  | .storeBlobForDigest digest bytes => storeBlobEffect env w.time digest bytes s
  | .storeTree entries =>
    let digest := treeDigest env entries
    (s.insert (.tree,digest)
      (refreshed env digest (env.treeJson entries.toList) w.time (s.lookup (.tree,digest))),
      .ok digest)
  | .rawSize kind digest =>
    entryEffect s kind digest (.io .notFound "Failed to stat") fun metadata =>
      (s,.ok metadata.rawSizeBytes)
  | .touch kind digest at_ =>
    entryEffect s kind digest (.io .notFound "Failed to stat") fun metadata =>
      (s.insert (kind,digest) { metadata with lastReferencedAt := at_ },
        .ok { metadata with lastReferencedAt := at_ })
  | .listMetadata kind =>
    (s,.ok (s.entries.filterMap fun e => if e.1.1 = kind then some (e.1.2,e.2) else none))
  | .delete kind digest =>
    if validDigest digest = false then (s,.error (invalidDigest digest))
    else (s.erase (kind,digest),.ok ())
  | .clearRuntimeDir _ => (s,.ok ())
  | .removeRuntimeDir _ => (s,.ok ())
  | .materialize _ _ digest =>
    entryEffect s .blob digest (missingBlob digest) fun _ => (s,.ok ())
  | .writeWorkorderJson _ _ => (s,.ok ())
  | .readParityManifest _ => (s,.ok w.parity)
  | .readDistfileManifest _ => (s,.ok w.distfiles)
  | .readOutputBlob _ _ => (s,.ok w.output)

/-- The answer of a call that meets an I/O error. Reading the clock cannot. -/
def storeFailed : (o : StoreOp) → Failure → Option (StoreRes o)
  | .now, _ => none
  | .ensureBlobExists _, f => some (.error f)
  | .loadBlobMetadata _, f => some (.error f)
  | .storeBlob _, f => some (.error f)
  | .storeBlobForDigest _ _, f => some (.error f)
  | .storeTree _, f => some (.error f)
  | .rawSize _ _, f => some (.error f)
  | .touch _ _ _, f => some (.error f)
  | .listMetadata _, f => some (.error f)
  | .delete _ _, f => some (.error f)
  | .clearRuntimeDir _, f => some (.error f)
  | .removeRuntimeDir _, f => some (.error f)
  | .materialize _ _ _, f => some (.error f)
  | .writeWorkorderJson _ _, f => some (.error f)
  | .readParityManifest _, f => some (.error f)
  | .readDistfileManifest _, f => some (.error f)
  | .readOutputBlob _ _, f => some (.error f)

def storeSem (env : Codecs) (o : StoreOp) (w : StoreOracle) (s : StoredEntries) :
    Option (StoredEntries × StoreRes o) :=
  match w.fault with
  | none => some (storeEffect env w s o)
  | some failure => (storeFailed o failure).map fun r => (s,r)

def servedStore (env : Codecs) (o : StoreOp) (w : StoreOracle) (s : StoredEntries) :
    Option (StoredEntries × StoreRes o) := some (storeEffect env w s o)

def StoreOp.deletes : StoreOp → Option (EntryKind × Digest)
  | .delete kind digest => some (kind,digest)
  | _ => none

variable {env : Codecs} {w : StoreOracle} {s s' : StoredEntries}

def Present (s : StoredEntries) (key : EntryKind × Digest) : Prop := (s.lookup key).isSome = true

instance (s : StoredEntries) (key : EntryKind × Digest) : Decidable (Present s key) :=
  inferInstanceAs (Decidable (_ = true))

theorem present_insert_self (key : EntryKind × Digest) (m : StoredMetadata) :
    Present (s.insert key m) key := by
  simp [Present,AList.lookup_insert]

/-- The entry stays, with the time of its last reference renewed, and with an encoded
variant if it had none. -/
structure Kept (m m' : StoredMetadata) : Prop where
  digest : m'.canonicalDigest = m.canonicalDigest
  size : m'.rawSizeBytes = m.rawSizeBytes
  variant : ∀ k, m.encodedVariants = some k → m'.encodedVariants = some k

def Keeps (s s' : StoredEntries) (key : EntryKind × Digest) : Prop :=
  ∀ m, s.lookup key = some m → ∃ m', s'.lookup key = some m' ∧ Kept m m'

variable {key : EntryKind × Digest}

theorem keeps_self (s : StoredEntries) : Keeps s s key :=
  fun m h => ⟨m,h,rfl,rfl,fun _ hk => hk⟩

theorem keeps_insert {key' : EntryKind × Digest} {m' : StoredMetadata}
    (h : ∀ m, s.lookup key' = some m → Kept m m') : Keeps s (s.insert key' m') key := by
  intro m hm
  rw [AList.lookup_insert_ite]
  split
  · next he => exact ⟨m',rfl,h m (he ▸ hm)⟩
  · exact ⟨m,hm,rfl,rfl,fun _ hk => hk⟩

theorem kept_refreshed (digest : Digest) (bytes : Bytes) (now : Time) (old : StoredMetadata) :
    Kept old (refreshed env digest bytes now (some old)) :=
  ⟨rfl,rfl,fun k hk => by simp [refreshed,hk]⟩

theorem keeps_storeBlobEffect (now : Time) (digest : Digest) (bytes : Bytes) :
    Keeps s (storeBlobEffect env now digest bytes s).1 key := by
  unfold storeBlobEffect
  split_ifs
  · exact keeps_self s
  · exact keeps_self s
  · split
    · next hnone => exact keeps_insert fun m hm => by rw [hnone] at hm; cases hm
    · next old hold =>
      split
      · exact keeps_self s
      · refine keeps_insert fun m hm => ?_
        rw [hold] at hm
        cases hm
        exact kept_refreshed _ _ _ old

theorem keeps_entryEffect {α : Type} (kind : EntryKind) (digest : Digest) (missing : Failure)
    (found : StoredMetadata → StoredEntries × Except Failure α)
    (hf : ∀ m, s.lookup (kind,digest) = some m → Keeps s (found m).1 key) :
    Keeps s (entryEffect s kind digest missing found).1 key := by
  unfold entryEffect
  split_ifs
  · exact keeps_self s
  · split
    · exact keeps_self s
    · next m hm => exact hf m hm

theorem keeps_storeEffect (o : StoreOp) (hd : o.deletes ≠ some key) :
    Keeps s (storeEffect env w s o).1 key := by
  cases o with
  | ensureBlobExists d | loadBlobMetadata d | rawSize k d | materialize i t d =>
    exact keeps_entryEffect _ _ _ _ fun _ _ => keeps_self s
  | storeBlob b | storeBlobForDigest d b => exact keeps_storeBlobEffect _ _ _
  | storeTree e =>
    refine keeps_insert fun m hm => ?_
    rw [hm]
    exact kept_refreshed _ _ _ m
  | touch k d t =>
    refine keeps_entryEffect _ _ _ _ fun m hm => keeps_insert fun m' hm' => ?_
    rw [hm] at hm'
    cases hm'
    exact ⟨rfl,rfl,fun _ hk => hk⟩
  | delete k d =>
    simp only [storeEffect]
    split_ifs
    · exact keeps_self s
    · intro m hm
      have hne : key ≠ (k,d) := fun he => hd (by rw [he]; rfl)
      rw [AList.lookup_erase_ite,if_neg hne]
      exact keeps_self s m hm
  | _ => exact keeps_self s

theorem keeps_storeSem (o : StoreOp) (r : StoreRes o) (hs : storeSem env o w s = some (s',r))
    (hd : o.deletes ≠ some key) : Keeps s s' key := by
  unfold storeSem at hs
  split at hs
  · have he : s' = (storeEffect env w s o).1 := by simp [Option.some.inj hs]
    rw [he]
    exact keeps_storeEffect o hd
  · obtain ⟨r',-,he⟩ := Option.map_eq_some_iff.mp hs
    have : s = s' := (Prod.mk.inj he).1
    exact this ▸ keeps_self s

theorem present_storeSem (o : StoreOp) (r : StoreRes o) (key : EntryKind × Digest)
    (hs : storeSem env o w s = some (s',r)) (h : Present s key) (hd : o.deletes ≠ some key) :
    Present s' key := by
  obtain ⟨m,hm⟩ := Option.isSome_iff_exists.mp h
  obtain ⟨m',hm',-⟩ := keeps_storeSem o r hs hd m hm
  exact Option.isSome_iff_exists.mpr ⟨m',hm'⟩

end Remerge.SnapshotStore
