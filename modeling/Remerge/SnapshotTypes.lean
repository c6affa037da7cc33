import Remerge.StepProgram
import Remerge.Table

/-!
# Snapshot data

The records the server keeps about stored snapshot data and the snapshot part
of a submitted portage configuration. Hashing, compression and the JSON form
of a tree are supplied from outside with the properties they are documented to
have; their results are never assumed beyond that.
-/

set_option autoImplicit false

namespace Remerge.SnapshotTypes

abbrev Bytes : Type := List UInt8
abbrev Digest : Type := String
abbrev Uuid : Type := String
abbrev WorkorderId : Type := Uuid

/-- Nanoseconds since the epoch, as `DateTime<Utc>` counts them. -/
abbrev Time : Type := ℤ

abbrev BTreeMap (ν : Type) : Type := Std.TreeMap String ν

inductive IoKind where
  | notFound | alreadyExists | crossesDevices | notADirectory | isADirectory | other
  deriving DecidableEq, Repr

/-- An `anyhow` error: an I/O error with its context, or a plain message. -/
inductive Failure where
  | io (kind : IoKind) (context : String)
  | bail (message : String)
  deriving DecidableEq, Repr

def Failure.isNotFoundError : Failure → Bool
  | .io kind _ => kind == .notFound
  | .bail _ => false

def Failure.text : Failure → String
  | .io _ context => context
  | .bail message => message

def isAsciiHexdigit (c : Char) : Bool :=
  ('0' ≤ c && c ≤ '9') || ('a' ≤ c && c ≤ 'f') || ('A' ≤ c && c ≤ 'F')

def validDigest (digest : Digest) : Bool :=
  digest.toList.length == 64 && digest.toList.all isAsciiHexdigit

def invalidDigest (digest : Digest) : Failure :=
  .bail s!"invalid sha256 digest '{digest}'"

/-- `hex::encode(Sha256::digest(..))`, `adler2::adler32_slice`, the zstd codec and `serde_json`
on trees. -/
structure Codecs where
  sha256 : Bytes → Digest
  adler32 : Bytes → ℕ
  encodeZstd : Bytes → Bytes
  decodeZstd : Bytes → Option Bytes
  treeJson : List (String × Digest) → Bytes
  sha256_valid : ∀ b, validDigest (sha256 b)
  adler32_lt : ∀ b, adler32 b < 4294967296
  decode_encode : ∀ b, decodeZstd (encodeZstd b) = some b

/-- SHA-256 of the empty string and of the strings "a", "b" and "ab". All other
inputs share the first value. -/
def sampleSha256 : Bytes → Digest
  | [97,98] => "fb8e20fc2e4c3f248c60c39bd652f3c1347298bb977b8b4d5903b85055620603"
  | [97] => "ca978112ca1bbdcafac231b39a23dc4da786eff8147c4e72b9807785afee48bb"
  | [98] => "3e23e8160039594a33894f6564e1b1348bbd7a0088d42c4acb73eeaed59c009d"
  | _ => "e3b0c44298fc1c149afbf4c8996fb92427ae41e4649b934ca495991b7852b855"

theorem sampleSha256_valid (b : Bytes) : validDigest (sampleSha256 b) := by
  unfold sampleSha256
  split <;> decide

def plainCodecs : Codecs where
  sha256 := sampleSha256
  adler32 := fun _ => 1
  encodeZstd := id
  decodeZstd := some
  treeJson := fun _ => []
  sha256_valid := sampleSha256_valid
  adler32_lt := fun _ => by decide
  decode_encode := fun _ => rfl

inductive EntryKind where
  | blob | tree
  deriving DecidableEq, Repr

/-- `BlobMetadata` and `TreeMetadata`, which have the same fields. The only
encoded variant there is carries its size. -/
structure StoredMetadata where
  canonicalDigest : Digest
  rawSizeBytes : ℕ
  lastReferencedAt : Time
  encodedVariants : Option ℕ
  deriving DecidableEq, Repr

structure SnapshotEntry where
  digest : Digest
  size : ℕ
  mtimeSecs : ℤ
  deriving DecidableEq, Repr

structure RepoSnapshotManifest where
  treeDigest : Digest
  entries : BTreeMap SnapshotEntry

def RepoSnapshotManifest.default : RepoSnapshotManifest := ⟨"",∅⟩

def snapshotManifestVersionV1 : ℕ := 1

structure SnapshotManifest where
  version : ℕ
  repoSnapshots : BTreeMap RepoSnapshotManifest
  distfiles : BTreeMap SnapshotEntry

def SnapshotManifest.default : SnapshotManifest := ⟨snapshotManifestVersionV1,∅,∅⟩

/-- The snapshot fields of a portage configuration. -/
structure PortageConfig where
  repoSnapshots : BTreeMap (BTreeMap String)
  distfileSnapshots : BTreeMap Bytes
  snapshotManifest : SnapshotManifest
  repoSnapshotRefs : BTreeMap (BTreeMap Digest)
  repoSnapshotTrees : BTreeMap Digest
  distfileSnapshotRefs : BTreeMap Digest

def PortageConfig.default : PortageConfig :=
  ⟨∅,∅,SnapshotManifest.default,∅,∅,∅⟩

structure SnapshotReferenceSet where
  blobDigests : List Digest
  treeDigests : List Digest
  totalBlobBytes : ℕ
  totalTreeBytes : ℕ
  lastReferencedAt : Time

def SnapshotReferenceSet.has (r : SnapshotReferenceSet) : EntryKind → Digest → Bool
  | .blob, d => r.blobDigests.contains d
  | .tree, d => r.treeDigests.contains d

structure ParityFileEntry where
  digest : Digest
  size : ℕ
  mtimeSecs : ℤ
  deriving DecidableEq, Repr

structure ParityDirectoryEntry where
  mtimeSecs : ℤ
  deriving DecidableEq, Repr

/-- `ParitySymlinkEntry` has the fields of `ParityFileEntry`. -/
structure ParityManifest where
  files : BTreeMap ParityFileEntry
  directories : BTreeMap ParityDirectoryEntry
  symlinks : BTreeMap ParityFileEntry

def ParityManifest.default : ParityManifest := ⟨∅,∅,∅⟩

end Remerge.SnapshotTypes
