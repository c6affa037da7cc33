import Remerge.SnapshotCleanup

/-!
# Server state

The records of `AppState` and the updates its locks protect: the client
registry, status changes, eviction and what a start loads from disk. Each
function here runs under one lock acquisition of the source.
-/

set_option autoImplicit false

namespace Remerge.ServerState
open SnapshotTypes SnapshotStore SnapshotCleanup

abbrev ClientId : Type := Uuid
abbrev ContainerId : Type := String

inductive WorkorderStatus where
  | pending | provisioning | building | completed
  | failed (reason : String)
  | cancelled
  deriving DecidableEq, Repr

def WorkorderStatus.active : WorkorderStatus → Bool
  | .pending | .provisioning | .building => true
  | .completed | .failed _ | .cancelled => false

def WorkorderStatus.terminal : WorkorderStatus → Bool
  | .completed | .failed _ | .cancelled => true
  | .pending | .provisioning | .building => false

theorem WorkorderStatus.terminal_eq (st : WorkorderStatus) : st.terminal = !st.active := by
  cases st <;> rfl

inductive ClientRole where
  | main | follower
  deriving DecidableEq, Repr

structure Workorder where
  id : WorkorderId
  clientId : ClientId
  role : ClientRole
  atoms : List String
  emergeArgs : List String
  portageConfig : PortageConfig
  systemId : String
  traceId : Option String
  status : WorkorderStatus
  createdAt : Time
  updatedAt : Time

def Workorder.isActive (w : Workorder) : Bool := w.status.active

inductive BuildEvent where
  | statusChanged (before after : WorkorderStatus)
  | packageBuilt (atom : String) (durationSecs : ℕ)
  | packageFailed (atom reason : String)
  | finished (built failed : List String)
  deriving DecidableEq, Repr

inductive WorkerEvent where
  | packageBuilt (atom : String) (durationSecs : ℕ)
  | packageFailed (atom reason : String)
  deriving DecidableEq, Repr

structure BuiltPackage where
  atom : String
  binpkgPath : String
  sha256 : String
  size : ℕ
  deriving DecidableEq, Repr

structure FailedPackage where
  atom : String
  reason : String
  buildLog : Option String
  deriving DecidableEq, Repr

structure WorkorderResult where
  workorderId : WorkorderId
  builtPackages : List BuiltPackage
  failedPackages : List FailedPackage
  binhostUri : String
  fetchedDistfiles : BTreeMap SnapshotEntry
  parityManifest : ParityManifest

structure ClientState where
  clientId : ClientId
  configHash : String
  systemHash : String
  lastSeen : Time
  activeWorkorder : Option WorkorderId
  deriving DecidableEq, Repr

structure ConfigDiff where
  portageChanged : Bool
  systemChanged : Bool
  deriving DecidableEq, Repr

inductive RegistryError where
  | activeWorkorder (id : WorkorderId)
  | noMainClient
  | configMismatch
  deriving DecidableEq, Repr

inductive Counter where
  | queueDepth | buildsActive | workordersSubmitted | workordersCompleted | workordersFailed
  | workordersCancelled
  deriving DecidableEq, Repr

/-- The files a server writes by atomic replace. -/
structure Persisted where
  workorders : Option (Table WorkorderId Workorder)
  results : Option (Table WorkorderId WorkorderResult)
  clients : Option (Table ClientId ClientState)

structure Server where
  workorders : Table WorkorderId Workorder
  workorderReaders : ℕ
  submissionLock : Bool
  clients : Table ClientId ClientState
  results : Table WorkorderId WorkorderResult
  progressTxs : Table WorkorderId Unit
  rawOutputTxs : Table WorkorderId Unit
  stdinTxs : Table WorkorderId Unit
  containerIds : Table WorkorderId ContainerId
  containerReaders : ℕ
  stagedReferences : Table WorkorderId SnapshotReferenceSet
  imageLastUsed : Table String Time
  permits : ℕ
  counters : Counter → ℕ
  events : List (WorkorderId × BuildEvent)
  store : StoredEntries
  disk : Persisted
  issued : List Uuid

def Server.statusOf (s : Server) (id : WorkorderId) : Option WorkorderStatus :=
  (s.workorders.lookup id).map (·.status)

def Server.markerOf (s : Server) (c : ClientId) : Option WorkorderId :=
  (s.clients.lookup c).bind (·.activeWorkorder)

def Server.activeCount (s : Server) : ℕ := s.workorders.count Workorder.isActive

/-- `ClientRegistry::update` on the hashes of the submitted configuration. -/
def updateClient (now : Time) (clientId : ClientId) (role : ClientRole)
    (configHash systemHash : String) (clients : Table ClientId ClientState) :
    Except RegistryError (ConfigDiff × Table ClientId ClientState) :=
  match clients.lookup clientId with
  | some existing =>
    match existing.activeWorkorder with
    | some activeId => .error (.activeWorkorder activeId)
    | none =>
      let diff : ConfigDiff :=
        ⟨existing.configHash != configHash,existing.systemHash != systemHash⟩
      match role with
      | .main => .ok (diff,
          clients.insert clientId ⟨clientId,configHash,systemHash,now,none⟩)
      | .follower =>
        if diff.portageChanged || diff.systemChanged then .error .configMismatch
        else .ok (diff,clients.insert clientId { existing with lastSeen := now })
  | none =>
    match role with
    | .main => .ok (⟨true,true⟩,
        clients.insert clientId ⟨clientId,configHash,systemHash,now,none⟩)
    | .follower => .error .noMainClient

def setActiveWorkorder (clientId : ClientId) (id : WorkorderId)
    (clients : Table ClientId ClientState) : Table ClientId ClientState :=
  clients.modify clientId fun c => { c with activeWorkorder := some id }

def clearActiveWorkorder (clientId : ClientId) (clients : Table ClientId ClientState) :
    Table ClientId ClientState :=
  clients.modify clientId fun c => { c with activeWorkorder := none }

theorem updateClient_ok {now : Time} {c : ClientId} {role : ClientRole} {ch sh : String}
    {clients clients' : Table ClientId ClientState} {diff : ConfigDiff}
    (h : updateClient now c role ch sh clients = .ok (diff,clients')) :
    (clients.lookup c).bind (·.activeWorkorder) = none ∧
      ∃ cs : ClientState, cs.activeWorkorder = none ∧ clients' = clients.insert c cs := by
  unfold updateClient at h
  split at h
  · next existing he =>
    rw [he]
    split at h
    · cases h
    · next hn =>
      refine ⟨hn,?_⟩
      split at h
      · cases h
        exact ⟨_,rfl,rfl⟩
      · dsimp only at h
        split at h
        · cases h
        · cases h
          exact ⟨{ existing with lastSeen := now },hn,rfl⟩
  · next he =>
    rw [he]
    split at h
    · cases h
      exact ⟨rfl,_,rfl,rfl⟩
    · cases h

/-- The map update of `set_workorder_status`. -/
def writeStatus (now : Time) (status : WorkorderStatus) (w : Workorder) : Workorder :=
  { w with status := status, updatedAt := now }

/-- The claim of the queue loop re-checks the status under the write lock. -/
def claimWorkorder (now : Time) (id : WorkorderId) (workorders : Table WorkorderId Workorder) :
    Table WorkorderId Workorder × Bool :=
  match workorders.lookup id with
  | some w =>
    if w.status = .pending then (workorders.insert id (writeStatus now .provisioning w),true)
    else (workorders,false)
  | none => (workorders,false)

inductive CancelOutcome where
  | notFound
  | notCancellable
  | cancelled (oldStatus : WorkorderStatus) (clientId : ClientId)
  deriving DecidableEq, Repr

/-- The map update of `cancel_workorder`, which does not touch `updated_at`. -/
def cancelStatus (id : WorkorderId) (workorders : Table WorkorderId Workorder) :
    Table WorkorderId Workorder × CancelOutcome :=
  match workorders.lookup id with
  | none => (workorders,.notFound)
  | some w =>
    if w.status.active then
      (workorders.insert id { w with status := .cancelled },.cancelled w.status w.clientId)
    else (workorders,.notCancellable)

def staleIds (cutoff : Time) (workorders : Table WorkorderId Workorder) : List WorkorderId :=
  (workorders.entries.filter fun e => e.2.status.terminal && e.2.updatedAt < cutoff).map (·.1)

def byUpdatedAt (a b : WorkorderId × Time) : Prop := a.2 ≤ b.2

instance : DecidableRel byUpdatedAt := fun a b => inferInstanceAs (Decidable (a.2 ≤ b.2))

/-- The oldest terminal workorders above the cap. -/
def excessIds (cap : ℕ) (workorders : Table WorkorderId Workorder) : List WorkorderId :=
  if 0 < cap ∧ cap < workorders.entries.length then
    ((((workorders.entries.filter fun e => e.2.status.terminal).map
      fun e => (e.1,e.2.updatedAt)).insertionSort byUpdatedAt).take
        (workorders.entries.length-cap)).map (·.1)
  else []

def without {ν : Type} (ids : List WorkorderId) (t : Table WorkorderId ν) : Table WorkorderId ν :=
  t.keep fun id _ => !ids.contains id

def Server.evictIds (s : Server) (ids : List WorkorderId) : Server :=
  { s with
    workorders := without ids s.workorders
    results := without ids s.results
    progressTxs := without ids s.progressTxs
    rawOutputTxs := without ids s.rawOutputTxs
    stdinTxs := without ids s.stdinTxs
    containerIds := without ids s.containerIds }

/-- `evict_workorders`: stale entries first, then the excess over the cap. -/
def evictWorkorders (config : ServerConfig) (cutoff : Time) (s : Server) : Server × ℕ :=
  let stale := staleIds cutoff s.workorders
  let s := s.evictIds stale
  let excess := excessIds config.maxRetainedWorkorders s.workorders
  (s.evictIds excess,stale.length+excess.length)

/-- `load_workorders` puts workorders that were in flight back into the queue. -/
def resetInFlight (now : Time) (w : Workorder) : Workorder :=
  if w.status = .provisioning ∨ w.status = .building then writeStatus now .pending w else w

def loadWorkorders (now : Time) (disk : Persisted) : Table WorkorderId Workorder :=
  (disk.workorders.getD ∅).mapValues (resetInFlight now)

/-- `load_clients` clears every active workorder. -/
def loadClients (disk : Persisted) : Table ClientId ClientState :=
  (disk.clients.getD ∅).mapValues fun c => { c with activeWorkorder := none }

def activeChannels (workorders : Table WorkorderId Workorder) : Table WorkorderId Unit :=
  ((workorders.entries.filter fun e => e.2.isActive).map (·.1)).foldl (fun t id => t.insert id ()) ∅

/-- `AppState::new` on what an earlier server left on disk. -/
def boot (config : ServerConfig) (now : Time) (store : StoredEntries) (disk : Persisted)
    (issued : List Uuid) : Server where
  workorders := loadWorkorders now disk
  workorderReaders := 0
  submissionLock := false
  clients := loadClients disk
  results := disk.results.getD ∅
  progressTxs := activeChannels (loadWorkorders now disk)
  rawOutputTxs := activeChannels (loadWorkorders now disk)
  stdinTxs := ∅
  containerIds := ∅
  containerReaders := 0
  stagedReferences := ∅
  imageLastUsed := ∅
  permits := config.maxWorkers
  counters := fun _ => 0
  events := []
  store := store
  disk := disk
  issued := issued

end Remerge.ServerState
