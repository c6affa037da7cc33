import Remerge.Interleaving
import Remerge.ServerState

/-!
# Lock-delimited steps of the server

Every operation is what one task does between two points at which another task
can run: an update under one lock, a call into docker or into the snapshot
store, or the rename that puts a state file in place. Outcomes that the server
does not decide are the oracle's, as are the clock and fresh identifiers.
-/

set_option autoImplicit false

namespace Remerge.ServerOps
open StepProgram Interleaving SnapshotTypes SnapshotStore SnapshotRuntime SnapshotCleanup
open ServerState

inductive WaitOutcome where
  | exited (code : ℤ)
  | failed (error : String)
  | timedOut
  deriving DecidableEq, Repr

structure SubmitRequest where
  clientId : ClientId
  role : ClientRole
  atoms : List String
  emergeArgs : List String
  portageConfig : PortageConfig
  configHash : String
  systemHash : String
  systemId : String
  traceId : Option String

inductive ServerOp where
  | newId
  | lockSubmission
  | unlockSubmission
  | countActive
  | updateClient (clientId : ClientId) (role : ClientRole) (configHash systemHash : String)
  | setActive (clientId : ClientId) (id : WorkorderId)
  | clearActive (clientId : ClientId)
  | insertWorkorder (workorder : Workorder)
  | findPending
  | claim (id : WorkorderId)
  | setStatus (id : WorkorderId) (status : WorkorderStatus)
  | cancel (id : WorkorderId)
  | evict
  | insertRaw (id : WorkorderId)
  | insertProgress (id : WorkorderId)
  | insertStdin (id : WorkorderId)
  | hasProgress (id : WorkorderId)
  | hasRaw (id : WorkorderId)
  | removeRaw (id : WorkorderId)
  | removeProgress (id : WorkorderId)
  | removeStdin (id : WorkorderId)
  | insertResult (id : WorkorderId) (result : WorkorderResult)
  | insertContainerId (id : WorkorderId) (container : ContainerId)
  | removeContainerId (id : WorkorderId)
  | readContainerId (id : WorkorderId)
  | releaseContainerIds
  | trackReferences (id : WorkorderId) (references : SnapshotReferenceSet)
  | clearReferences (id : WorkorderId)
  | readReferences
  | recordImageUse (tag : String)
  | imageNeedsRebuild (tag : String)
  | buildWorkerImage (tag : String)
  | startWorker (id : WorkorderId) (tag : String)
  | waitContainer (container : ContainerId)
  | stopContainer (container : ContainerId)
  | removeContainer (container : ContainerId)
  | drainEvents (id : WorkorderId)
  | scanPackages (atoms built : List String)
  | send (id : WorkorderId) (event : BuildEvent)
  | add (counter : Counter)
  | sub (counter : Counter)
  | readWorkorders
  | lockWorkordersRead
  | unlockWorkordersRead
  | saveWorkorders (workorders : Table WorkorderId Workorder)
  | readClients
  | saveClients (clients : Table ClientId ClientState)
  | readResults
  | saveResults (results : Table WorkorderId WorkorderResult)
  | acquirePermit
  | releasePermit
  | spawnProcess (workorder : Workorder)
  | spawnCleanup
  | store (o : StoreOp)

@[reducible] def ServerRes : ServerOp → Type
  | .newId => Uuid × Time
  | .countActive => ℕ
  | .updateClient _ _ _ _ => Except RegistryError ConfigDiff
  | .findPending => Option Workorder
  | .claim _ => Bool
  | .setStatus _ _ => Option WorkorderStatus
  | .cancel _ => CancelOutcome
  | .evict => Option ℕ
  | .hasProgress _ => Bool
  | .hasRaw _ => Bool
  | .readContainerId _ => Option ContainerId
  | .readReferences => List SnapshotReferenceSet
  | .imageNeedsRebuild _ => Bool
  | .buildWorkerImage _ => Except String Unit
  | .startWorker _ _ => Except String ContainerId
  | .waitContainer _ => WaitOutcome
  | .removeContainer _ => Except String Unit
  | .drainEvents _ => List WorkerEvent
  | .scanPackages _ _ => Except String (List BuiltPackage)
  | .readWorkorders => Table WorkorderId Workorder
  | .lockWorkordersRead => Table WorkorderId Workorder
  | .readClients => Table ClientId ClientState
  | .readResults => Table WorkorderId WorkorderResult
  | .store o => StoreRes o
  | _ => Unit

/-- Everything an operation may take from outside. -/
structure ServerOracle where
  time : Time := 0
  uuid : Uuid := ""
  flag : Bool := false
  error : Option String := none
  container : ContainerId := "container"
  wait : WaitOutcome := .exited 0
  workerEvents : List WorkerEvent := []
  packages : List BuiltPackage := []
  fault : Option Failure := none
  parity : ParityManifest := .default
  distfiles : BTreeMap SnapshotEntry := ∅
  output : Bytes := []

def ServerOracle.toStore (w : ServerOracle) : StoreOracle :=
  ⟨w.time,w.fault,w.parity,w.distfiles,w.output⟩

def answer {α : Type} (error : Option String) (value : α) : Except String α :=
  match error with
  | none => .ok value
  | some e => .error e

/-- A `u64` counter's `fetch_sub(1)`, which wraps below zero. -/
def wrappingPred (n : ℕ) : ℕ := (n+(2^64-1))%2^64

def wrappingSucc (n : ℕ) : ℕ := (n+1)%2^64

/-- The oldest pending workorder. Among equally old ones the map's order
decides, so the oracle names the one that is taken. -/
def isOldestPending (workorders : Table WorkorderId Workorder) (w : Workorder) : Bool :=
  w.status == .pending &&
    workorders.values.all fun v => v.status != .pending || w.createdAt ≤ v.createdAt

/-- An update that needs a write lock waits until nobody holds the read lock. -/
def exclusive {α : Type} (readers : ℕ) (updated : α) : Option α :=
  if readers = 0 then some updated else none

theorem of_exclusive {α : Type} {readers : ℕ} {updated x : α}
    (h : exclusive readers updated = some x) : updated = x := by
  unfold exclusive at h
  split at h
  · exact Option.some.inj h
  · cases h

variable (env : Codecs) (config : ServerConfig)

/-- One operation. No answer means the task has to wait. -/
def serverSem (o : ServerOp) (w : ServerOracle) (s : Server) : Option (Server × ServerRes o) :=
  match o with
  | .newId =>
    if w.uuid ∈ s.issued then none
    else some ({ s with issued := w.uuid::s.issued },(w.uuid,w.time))
  | .lockSubmission =>
    if s.submissionLock then none else some ({ s with submissionLock := true },())
  | .unlockSubmission => some ({ s with submissionLock := false },())
  | .countActive => some (s,s.activeCount)
  | .updateClient c role ch sh =>
    match ServerState.updateClient w.time c role ch sh s.clients with
    | .ok (diff,clients) => some ({ s with clients := clients },.ok diff)
    | .error e => some (s,.error e)
  | .setActive c id => some ({ s with clients := setActiveWorkorder c id s.clients },())
  | .clearActive c => some ({ s with clients := clearActiveWorkorder c s.clients },())
  | .insertWorkorder wo =>
    exclusive s.workorderReaders ({ s with workorders := s.workorders.insert wo.id wo },())
  | .findPending =>
    if s.workorders.values.any (fun v => v.status == .pending) then
      match s.workorders.lookup w.uuid with
      | some wo => if isOldestPending s.workorders wo then some (s,some wo) else none
      | none => none
    else some (s,none)
  | .claim id =>
    let claimed := claimWorkorder w.time id s.workorders
    exclusive s.workorderReaders ({ s with workorders := claimed.1 },claimed.2)
  | .setStatus id st =>
    exclusive s.workorderReaders
      ({ s with workorders := s.workorders.modify id (writeStatus w.time st) },s.statusOf id)
  | .cancel id =>
    let cancelled := cancelStatus id s.workorders
    exclusive s.workorderReaders ({ s with workorders := cancelled.1 },cancelled.2)
  | .evict =>
    if s.workorderReaders = 0 ∧ s.containerReaders = 0 then
      match hoursBefore w.time config.retentionHours with
      | some cutoff =>
        let evicted := evictWorkorders config cutoff s
        some (evicted.1,some evicted.2)
      | none => some (s,none)
    else none
  | .insertRaw id => some ({ s with rawOutputTxs := s.rawOutputTxs.insert id () },())
  | .insertProgress id => some ({ s with progressTxs := s.progressTxs.insert id () },())
  | .insertStdin id => some ({ s with stdinTxs := s.stdinTxs.insert id () },())
  | .hasProgress id => some (s,(s.progressTxs.lookup id).isSome)
  | .hasRaw id => some (s,(s.rawOutputTxs.lookup id).isSome)
  | .removeRaw id => some ({ s with rawOutputTxs := s.rawOutputTxs.erase id },())
  | .removeProgress id => some ({ s with progressTxs := s.progressTxs.erase id },())
  | .removeStdin id => some ({ s with stdinTxs := s.stdinTxs.erase id },())
  | .insertResult id result => some ({ s with results := s.results.insert id result },())
  | .insertContainerId id container =>
    exclusive s.containerReaders ({ s with containerIds := s.containerIds.insert id container },())
  | .removeContainerId id =>
    exclusive s.containerReaders ({ s with containerIds := s.containerIds.erase id },())
  | .readContainerId id =>
    match s.containerIds.lookup id with
    | some container =>
      some ({ s with containerReaders := s.containerReaders+1 },some container)
    | none => some (s,none)
  | .releaseContainerIds => some ({ s with containerReaders := s.containerReaders-1 },())
  | .trackReferences id references =>
    some ({ s with stagedReferences := s.stagedReferences.insert id references },())
  | .clearReferences id =>
    some ({ s with stagedReferences := s.stagedReferences.erase id },())
  | .readReferences => some (s,s.stagedReferences.values)
  | .recordImageUse tag =>
    some ({ s with imageLastUsed := s.imageLastUsed.insert tag w.time },())
  | .imageNeedsRebuild _ => some (s,w.flag)
  | .buildWorkerImage _ => some (s,answer w.error ())
  | .startWorker _ _ => some (s,answer w.error w.container)
  | .waitContainer _ =>
    -- Without a configured limit the wait is not put under a timeout.
    if w.wait = .timedOut ∧ config.buildTimeoutSecs = 0 then none else some (s,w.wait)
  | .stopContainer _ => some (s,())
  | .removeContainer _ => some (s,answer w.error ())
  | .drainEvents _ => some (s,w.workerEvents)
  | .scanPackages _ _ => some (s,answer w.error w.packages)
  | .send id event => some ({ s with events := s.events++[(id,event)] },())
  | .add counter =>
    some ({ s with
      counters := Function.update s.counters counter (wrappingSucc (s.counters counter)) },())
  | .sub counter =>
    some ({ s with
      counters := Function.update s.counters counter (wrappingPred (s.counters counter)) },())
  | .readWorkorders => some (s,s.workorders)
  | .lockWorkordersRead =>
    some ({ s with workorderReaders := s.workorderReaders+1 },s.workorders)
  | .unlockWorkordersRead => some ({ s with workorderReaders := s.workorderReaders-1 },())
  | .saveWorkorders m =>
    some ({ s with disk := { s.disk with
      workorders := if w.error.isSome then s.disk.workorders else some m } },())
  | .readClients => some (s,s.clients)
  | .saveClients m =>
    some ({ s with disk := { s.disk with
      clients := if w.error.isSome then s.disk.clients else some m } },())
  | .readResults => some (s,s.results)
  | .saveResults m =>
    some ({ s with disk := { s.disk with
      results := if w.error.isSome then s.disk.results else some m } },())
  | .acquirePermit => if s.permits = 0 then none else some ({ s with permits := s.permits-1 },())
  | .releasePermit => some ({ s with permits := s.permits+1 },())
  | .spawnProcess _ => some (s,())
  | .spawnCleanup => some (s,())
  | .store o => (storeSem env o w.toStore s.store).map fun r => ({ s with store := r.1 },r.2)

def effect (o : ServerOp) (w : ServerOracle) (s : Server) : Server :=
  match o with
  | .newId => { s with issued := w.uuid::s.issued }
  | .lockSubmission => { s with submissionLock := true }
  | .unlockSubmission => { s with submissionLock := false }
  | .updateClient c role ch sh => { s with
      clients := match ServerState.updateClient w.time c role ch sh s.clients with
        | .ok (_,clients) => clients
        | .error _ => s.clients }
  | .setActive c id => { s with clients := setActiveWorkorder c id s.clients }
  | .clearActive c => { s with clients := clearActiveWorkorder c s.clients }
  | .insertWorkorder wo => { s with workorders := s.workorders.insert wo.id wo }
  | .claim id => { s with workorders := (claimWorkorder w.time id s.workorders).1 }
  | .setStatus id st => { s with workorders := s.workorders.modify id (writeStatus w.time st) }
  | .cancel id => { s with workorders := (cancelStatus id s.workorders).1 }
  | .evict => match hoursBefore w.time config.retentionHours with
      | some cutoff => (evictWorkorders config cutoff s).1
      | none => s
  | .insertRaw id => { s with rawOutputTxs := s.rawOutputTxs.insert id () }
  | .insertProgress id => { s with progressTxs := s.progressTxs.insert id () }
  | .insertStdin id => { s with stdinTxs := s.stdinTxs.insert id () }
  | .removeRaw id => { s with rawOutputTxs := s.rawOutputTxs.erase id }
  | .removeProgress id => { s with progressTxs := s.progressTxs.erase id }
  | .removeStdin id => { s with stdinTxs := s.stdinTxs.erase id }
  | .insertResult id result => { s with results := s.results.insert id result }
  | .insertContainerId id c => { s with containerIds := s.containerIds.insert id c }
  | .removeContainerId id => { s with containerIds := s.containerIds.erase id }
  | .readContainerId id => { s with
      containerReaders := s.containerReaders+(if (s.containerIds.lookup id).isSome then 1 else 0) }
  | .releaseContainerIds => { s with containerReaders := s.containerReaders-1 }
  | .trackReferences id references =>
    { s with stagedReferences := s.stagedReferences.insert id references }
  | .clearReferences id => { s with stagedReferences := s.stagedReferences.erase id }
  | .recordImageUse tag => { s with imageLastUsed := s.imageLastUsed.insert tag w.time }
  | .send id event => { s with events := s.events++[(id,event)] }
  | .add c => { s with counters := Function.update s.counters c (wrappingSucc (s.counters c)) }
  | .sub c => { s with counters := Function.update s.counters c (wrappingPred (s.counters c)) }
  | .lockWorkordersRead => { s with workorderReaders := s.workorderReaders+1 }
  | .unlockWorkordersRead => { s with workorderReaders := s.workorderReaders-1 }
  | .saveWorkorders m => { s with disk := { s.disk with
      workorders := if w.error.isSome then s.disk.workorders else some m } }
  | .saveClients m => { s with disk := { s.disk with
      clients := if w.error.isSome then s.disk.clients else some m } }
  | .saveResults m => { s with disk := { s.disk with
      results := if w.error.isSome then s.disk.results else some m } }
  | .acquirePermit => { s with permits := s.permits-1 }
  | .releasePermit => { s with permits := s.permits+1 }
  | .store o => { s with store := ((storeSem env o w.toStore s.store).map Prod.fst).getD s.store }
  | _ => s

theorem effect_of_sem {o : ServerOp} {w : ServerOracle} {s s' : Server} {r : ServerRes o}
    (hs : serverSem env config o w s = some (s',r)) : s' = effect env config o w s := by
  cases o with
  | newId | lockSubmission | acquirePermit | waitContainer _ =>
    simp only [serverSem,Option.ite_none_left_eq_some] at hs
    cases hs.2
    rfl
  | insertContainerId _ _ | removeContainerId _ | insertWorkorder _ | claim _ | setStatus _ _
  | cancel _ =>
    cases of_exclusive hs
    rfl
  | updateClient _ _ _ _ | readContainerId _ =>
    simp only [serverSem] at hs
    split at hs <;> cases hs <;> simp [effect, *]
  | findPending =>
    simp only [serverSem] at hs
    split at hs
    · split at hs
      · simp only [Option.ite_none_right_eq_some] at hs
        cases hs.2
        rfl
      · cases hs
    · cases hs
      rfl
  | evict =>
    simp only [serverSem,Option.ite_none_right_eq_some] at hs
    obtain ⟨-,he⟩ := hs
    split at he <;> cases he <;> simp [effect, *]
  | store o =>
    obtain ⟨t,ho,ht⟩ := Option.map_eq_some_iff.mp hs
    cases ht
    simp [effect,ho]
  | _ =>
    cases hs
    rfl

end Remerge.ServerOps
