import Mathlib.Algebra.Group.Int.Defs
import Mathlib.Algebra.Group.Nat.Defs
import Mathlib.Data.List.Sort
import Remerge.SnapshotRuntime

/-!
# Snapshot cache cleanup

One cleanup pass first collects: it lists the stored metadata and sorts the
entries that no staged workorder references into two tiers by their last
reference. It then deletes from the oldest entry on until the retained size is
at the floor. The two halves are separate programs because other tasks run
between them.
-/

set_option autoImplicit false

namespace Remerge.SnapshotCleanup
open StepProgram SnapshotTypes SnapshotStore SnapshotRuntime

/-- The server settings the modelled functions read. -/
structure ServerConfig where
  binhostUrl : String
  maxWorkers : ℕ
  maxActiveWorkorders : ℕ
  buildTimeoutSecs : ℕ
  retentionHours : ℕ
  maxRetainedWorkorders : ℕ
  snapshotCacheGracePeriodHours : ℕ
  snapshotCacheHardDeleteHours : ℕ
  snapshotMinRetainedBytes : ℕ
  deriving DecidableEq, Repr

def defaultSnapshotCacheGracePeriodHours : ℕ := 7*24
def defaultSnapshotCacheHardDeleteHours : ℕ := 30*24

def ServerConfig.default : ServerConfig where
  binhostUrl := "http://localhost:7654/binpkgs"
  maxWorkers := 4
  maxActiveWorkorders := 256
  buildTimeoutSecs := 4*60*60
  retentionHours := 24
  maxRetainedWorkorders := 1000
  snapshotCacheGracePeriodHours := defaultSnapshotCacheGracePeriodHours
  snapshotCacheHardDeleteHours := defaultSnapshotCacheHardDeleteHours
  snapshotMinRetainedBytes := 10*1024*1024*1024

/-- `validate` on the snapshot settings, in the order of its checks. -/
def ServerConfig.validate (config : ServerConfig) : ServerConfig :=
  let grace := if config.snapshotCacheGracePeriodHours = 0 then
    defaultSnapshotCacheGracePeriodHours else config.snapshotCacheGracePeriodHours
  let hard := if config.snapshotCacheHardDeleteHours = 0 then
    defaultSnapshotCacheHardDeleteHours else config.snapshotCacheHardDeleteHours
  { config with
    snapshotCacheGracePeriodHours := grace
    snapshotCacheHardDeleteHours :=
      if hard < grace then defaultSnapshotCacheHardDeleteHours else hard }

def asI64 (n : ℕ) : ℤ := if n%2^64 < 2^63 then ((n%2^64 : ℕ) : ℤ) else ((n%2^64 : ℕ) : ℤ)-2^64

/-- `now - chrono::Duration::hours(hours as i64)`, with the panics chrono documents:
`Duration::hours` beyond `TimeDelta::MAX`, which is `i64::MAX` milliseconds, and the difference
outside `DateTime::<Utc>::MIN_UTC` to `MAX_UTC`, the years -262143 to 262142. -/
def hoursBefore (now : Time) (hours : ℕ) : Option Time :=
  let secs := asI64 hours*3600
  let at_ := now-secs*1000000000
  if secs.natAbs ≤ (2^63-1)/1000 ∧
      -8334601228800*1000000000 ≤ at_ ∧ at_ < 8210266876800*1000000000 then some at_
  else none

structure Cutoffs (config : ServerConfig) (now graceCutoff hardDeleteCutoff : Time) : Prop where
  grace : hoursBefore now config.snapshotCacheGracePeriodHours = some graceCutoff
  hard : hoursBefore now config.snapshotCacheHardDeleteHours = some hardDeleteCutoff

structure CleanupEntry where
  kind : EntryKind
  digest : Digest
  lastReferencedAt : Time
  retainedBytes : ℕ
  deriving DecidableEq, Repr

structure CleanupPlan where
  totalRetainedBytes : ℕ
  hardDelete : List CleanupEntry
  floorEligible : List CleanupEntry
  deriving DecidableEq, Repr

structure SnapshotCleanupSummary where
  deletedBlobs : ℕ
  deletedTrees : ℕ
  reclaimedBytes : ℕ
  deriving DecidableEq, Repr

def saturatingAdd (a b : ℕ) : ℕ := min (a+b) (2^64-1)

def StoredMetadata.retainedBytes (m : StoredMetadata) : ℕ :=
  m.rawSizeBytes+m.encodedVariants.getD 0

/-- The body of the collecting loops, which are the same for blobs and trees. -/
def collectRecord (active : List SnapshotReferenceSet) (graceCutoff hardDeleteCutoff : Time)
    (kind : EntryKind) (plan : CleanupPlan) (record : Digest × StoredMetadata) : CleanupPlan :=
  let retained := StoredMetadata.retainedBytes record.2
  let plan := { plan with totalRetainedBytes := saturatingAdd plan.totalRetainedBytes retained }
  if active.any (fun references => references.has kind record.1) then plan
  else
    let entry : CleanupEntry := ⟨kind,record.1,record.2.lastReferencedAt,retained⟩
    if entry.lastReferencedAt ≤ hardDeleteCutoff then
      { plan with hardDelete := plan.hardDelete++[entry] }
    else if entry.lastReferencedAt ≤ graceCutoff then
      { plan with floorEligible := plan.floorEligible++[entry] }
    else plan

def byLastReferenced (a b : CleanupEntry) : Prop := a.lastReferencedAt ≤ b.lastReferencedAt

instance : DecidableRel byLastReferenced := fun a b =>
  inferInstanceAs (Decidable (a.lastReferencedAt ≤ b.lastReferencedAt))

def listMetadata (kind : EntryKind) : StoreProg (List (Digest × StoredMetadata)) :=
  ExceptT.mk (storeCall (.listMetadata kind))

/-- The first half of `cleanup_snapshot_storage_at`. No plan means the cutoffs
are out of range and the task panics. -/
def collectCleanup (config : ServerConfig) (active : List SnapshotReferenceSet) (now : Time) :
    StoreProg (Option CleanupPlan) :=
  match hoursBefore now config.snapshotCacheGracePeriodHours,
      hoursBefore now config.snapshotCacheHardDeleteHours with
  | some graceCutoff,some hardDeleteCutoff => do
    let blobs ← listMetadata .blob
    let plan := blobs.foldl (collectRecord active graceCutoff hardDeleteCutoff .blob) ⟨0,[],[]⟩
    let trees ← listMetadata .tree
    let plan := trees.foldl (collectRecord active graceCutoff hardDeleteCutoff .tree) plan
    pure (some plan)
  | _,_ => pure none

def deleteCleanupEntry (entry : CleanupEntry) (summary : SnapshotCleanupSummary) :
    StoreProg SnapshotCleanupSummary := do
  (ExceptT.mk (storeCall (.delete entry.kind entry.digest)) : StoreProg Unit)
  let reclaimed := saturatingAdd summary.reclaimedBytes entry.retainedBytes
  match entry.kind with
  | .blob => pure { summary with
      deletedBlobs := summary.deletedBlobs+1, reclaimedBytes := reclaimed }
  | .tree => pure { summary with
      deletedTrees := summary.deletedTrees+1, reclaimedBytes := reclaimed }

def deleteWhileAbove (floor : ℕ) :
    List CleanupEntry → ℕ → SnapshotCleanupSummary → StoreProg (ℕ × SnapshotCleanupSummary)
  | [], total, summary => pure (total,summary)
  | entry::rest, total, summary =>
    if total ≤ floor then pure (total,summary)
    else do
      let summary ← deleteCleanupEntry entry summary
      deleteWhileAbove floor rest (total-entry.retainedBytes) summary

/-- The second half of `cleanup_snapshot_storage_at`. -/
def deleteCollected (config : ServerConfig) (plan : CleanupPlan) :
    StoreProg SnapshotCleanupSummary :=
  let floor := config.snapshotMinRetainedBytes
  if plan.totalRetainedBytes ≤ floor then pure ⟨0,0,0⟩
  else do
    let (total,summary) ← deleteWhileAbove floor
      (plan.hardDelete.insertionSort byLastReferenced) plan.totalRetainedBytes ⟨0,0,0⟩
    let (_,summary) ← deleteWhileAbove floor
      (plan.floorEligible.insertionSort byLastReferenced) total summary
    pure summary

def cleanupSnapshotStorageAt (config : ServerConfig) (active : List SnapshotReferenceSet)
    (now : Time) : StoreProg (Option SnapshotCleanupSummary) := do
  match ← collectCleanup config active now with
  | none => pure none
  | some plan => do
    let summary ← deleteCollected config plan
    pure (some summary)

end Remerge.SnapshotCleanup
