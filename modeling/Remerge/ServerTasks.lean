import Remerge.ServerOps

/-!
# Tasks of the server

The handlers and background loops as programs over the lock-delimited steps:
submit and cancel requests, the queue loop, the processing of one workorder
with all its exits, eviction, the periodic saver, uploads and snapshot
cleanup. A submit starts here once the request is authenticated.
-/

set_option autoImplicit false

namespace Remerge.ServerTasks
open StepProgram Interleaving SnapshotTypes SnapshotStore SnapshotRuntime SnapshotCleanup
open ServerState ServerOps

inductive TaskKind where
  | submit (request : SubmitRequest)
  | cancel (id : WorkorderId)
  | queue
  | process (workorder : Workorder)
  | evict
  | save
  | upload (digest : Digest) (bytes : Bytes)
  | cleanup
  | cleanupAt (active : List SnapshotReferenceSet) (now : Time)

abbrev ServerProg (α : Type) : Type := Prog ServerOp ServerRes α

def op (o : ServerOp) : ServerProg (ServerRes o) := perform o

def onStore {α : Type} (p : StoreProg α) : ServerProg (Except Failure α) :=
  interpret (fun o => op (.store o)) (outcome p)

section
variable (config : ServerConfig)

/-- After a status was written: the event, then a save of a later copy. -/
def announceStatus (id : WorkorderId) (status : WorkorderStatus) :
    Option WorkorderStatus → ServerProg Unit
  | none => pure ()
  | some old => do
    op (.send id (.statusChanged old status))
    let workorders ← op .readWorkorders
    op (.saveWorkorders workorders)

def setWorkorderStatus (id : WorkorderId) (status : WorkorderStatus) : ServerProg Unit := do
  let old ← op (.setStatus id status)
  announceStatus id status old

def cleanupWorkorderRuntime (w : Workorder) (container : Option ContainerId) :
    ServerProg Unit := do
  op (.removeContainerId w.id)
  op (.clearReferences w.id)
  op (.removeProgress w.id)
  op (.removeRaw w.id)
  op (.removeStdin w.id)
  op (.clearActive w.clientId)
  match container with
  | some container => do
    let _ ← op (.removeContainer container)
  | none => pure ()
  let _ ← op (.store (.removeRuntimeDir w.id))
  op .spawnCleanup

def failedPackagesForAtoms (atoms : List String) (reason : String) : List FailedPackage :=
  atoms.map fun atom => ⟨atom,reason,none⟩

def failedResult (w : Workorder) (reason : String) (parity : ParityManifest) : WorkorderResult :=
  ⟨w.id,[],failedPackagesForAtoms w.atoms reason,config.binhostUrl,∅,parity⟩

/-- The exits before a container runs: image build, staging, container start. -/
def failBeforeWorker (w : Workorder) (reason : String) : ServerProg Unit := do
  setWorkorderStatus w.id (.failed reason)
  op (.send w.id (.finished [] w.atoms))
  op (.insertResult w.id (failedResult config w reason .default))
  op (.sub .buildsActive)
  op (.add .workordersFailed)
  cleanupWorkorderRuntime w none

def failIngest (w : Workorder) (container : ContainerId) (reason : String)
    (parity : ParityManifest) : ServerProg Unit := do
  setWorkorderStatus w.id (.failed reason)
  op (.insertResult w.id (failedResult config w reason parity))
  op (.send w.id (.finished [] w.atoms))
  op (.sub .buildsActive)
  op (.add .workordersFailed)
  cleanupWorkorderRuntime w (some container)

def prepareImage (tag : String) : ServerProg (Except String Unit) := do
  if ← op (.imageNeedsRebuild tag) then op (.buildWorkerImage tag) else pure (.ok ())

def waitForWorker (container : ContainerId) : ServerProg (Except String ℤ) := do
  match ← op (.waitContainer container) with
  | .exited code => pure (.ok code)
  | .failed e => pure (.error s!"Failed to wait for worker container: {e}")
  | .timedOut => do
    op (.stopContainer container)
    pure (.error s!"Build exceeded configured timeout of {config.buildTimeoutSecs} seconds")

/-- Broadcasts the collected events and returns the built atoms and failures. -/
def reportEvents (id : WorkorderId) :
    List WorkerEvent → List String → List FailedPackage →
      ServerProg (List String × List FailedPackage)
  | [], built, failed => pure (built,failed)
  | .packageBuilt atom secs::rest, built, failed => do
    op (.send id (.packageBuilt atom secs))
    reportEvents id rest (built++[atom]) failed
  | .packageFailed atom reason::rest, built, failed => do
    op (.send id (.packageFailed atom reason))
    reportEvents id rest built (failed++[⟨atom,reason,none⟩])

def packagesFromEvents (built : List String) : List BuiltPackage :=
  built.map fun atom => ⟨atom,s!"{atom}.gpkg.tar","",0⟩

def reportResult (w : Workorder) (result : WorkorderResult) (counter : Counter) :
    ServerProg Unit := do
  op (.insertResult w.id result)
  op (.send w.id (.finished (result.builtPackages.map (·.atom))
    (result.failedPackages.map (·.atom))))
  op (.add counter)

def finishCompleted (w : Workorder) (built : List String) (failed : List FailedPackage)
    (distfiles : BTreeMap SnapshotEntry) (parity : ParityManifest) : ServerProg Unit := do
  setWorkorderStatus w.id .completed
  let scanned := match ← op (.scanPackages w.atoms built) with
    | .ok packages => packages
    | .error _ => packagesFromEvents built
  let packages := if scanned.isEmpty then packagesFromEvents built else scanned
  reportResult w ⟨w.id,packages,failed,config.binhostUrl,distfiles,parity⟩ .workordersCompleted

def finishFailed (w : Workorder) (reason : String) (built : List String)
    (failed : List FailedPackage) (distfiles : BTreeMap SnapshotEntry)
    (parity : ParityManifest) : ServerProg Unit := do
  setWorkorderStatus w.id (.failed reason)
  let failures := if failed.isEmpty then failedPackagesForAtoms w.atoms reason else failed
  reportResult w ⟨w.id,packagesFromEvents built,failures,config.binhostUrl,distfiles,parity⟩
    .workordersFailed

def finishWorkorder (w : Workorder) (waited : Except String ℤ) (built : List String)
    (failed : List FailedPackage) (distfiles : BTreeMap SnapshotEntry)
    (parity : ParityManifest) : ServerProg Unit :=
  match waited with
  | .ok 0 => finishCompleted config w built failed distfiles parity
  | .ok code =>
    finishFailed config w s!"Worker exited with code {code}" built failed distfiles parity
  | .error reason => finishFailed config w reason built failed distfiles parity

/-- From a started container to the end. A missing raw channel panics. -/
def superviseWorker (w : Workorder) (container : ContainerId) : ServerProg Unit := do
  op (.insertContainerId w.id container)
  if ← op (.hasRaw w.id) then
    op (.insertStdin w.id)
    let waited ← waitForWorker config container
    op (.removeRaw w.id)
    let events ← op (.drainEvents w.id)
    let (built,failed) ← reportEvents w.id events [] []
    match ← onStore (ingestFinalStateParity w.id) with
    | .error e =>
      failIngest config w container s!"Failed to ingest final-state parity: {Failure.text e}"
        .default
    | .ok parity =>
      match ← onStore (ingestFetchedDistfiles w.id) with
      | .error e =>
        failIngest config w container s!"Failed to ingest fetched distfiles: {Failure.text e}"
          parity
      | .ok distfiles => do
        finishWorkorder config w waited built failed distfiles parity
        op (.sub .buildsActive)
        cleanupWorkorderRuntime w (some container)
  else pure ()

def processWorkorder (w : Workorder) : ServerProg Unit := do
  op (.add .buildsActive)
  if ← op (.hasProgress w.id) then
    match ← prepareImage w.systemId with
    | .error e => failBeforeWorker config w s!"Failed to build worker image: {e}"
    | .ok () => do
      op (.recordImageUse w.systemId)
      setWorkorderStatus w.id .building
      match ← onStore (stageWorkorderRuntime w.id w.portageConfig) with
      | .error e =>
        failBeforeWorker config w s!"Failed to stage worker runtime: {Failure.text e}"
      | .ok references => do
        op (.trackReferences w.id references)
        match ← op (.startWorker w.id w.systemId) with
        | .error e => failBeforeWorker config w s!"Failed to start worker: {e}"
        | .ok container => superviseWorker config w container
  else op (.sub .buildsActive)

end

def sendIfWatched (id : WorkorderId) (event : BuildEvent) : ServerProg Unit := do
  if ← op (.hasProgress id) then op (.send id event) else pure ()

def processQueue : ServerProg Unit := do
  match ← op .findPending with
  | none => pure ()
  | some w =>
    if ← op (.claim w.id) then
      op (.sub .queueDepth)
      sendIfWatched w.id (.statusChanged .pending .provisioning)
      op .acquirePermit
      op (.spawnProcess w)
    else pure ()

inductive SubmitOutcome where
  | badRequest (failure : Failure)
  | capacityReached (limit : ℕ)
  | conflict (error : RegistryError)
  | accepted (id : WorkorderId)

def newWorkorder (request : SubmitRequest) (normalized : PortageConfig) (id : WorkorderId)
    (now : Time) : Workorder where
  id := id
  clientId := request.clientId
  role := request.role
  atoms := request.atoms
  emergeArgs := request.emergeArgs
  portageConfig := normalized
  systemId := request.systemId
  traceId := request.traceId
  status := .pending
  createdAt := now
  updatedAt := now

def atCapacity (config : ServerConfig) : ServerProg Bool :=
  if 0 < config.maxActiveWorkorders then do
    let active ← op .countActive
    pure (config.maxActiveWorkorders ≤ active)
  else pure false

/-- What an accepted submit does after it has released the submission lock. -/
def recordSubmission : ServerProg Unit := do
  op (.add .workordersSubmitted)
  op (.add .queueDepth)
  let workorders ← op .lockWorkordersRead
  op (.saveWorkorders workorders)
  op .unlockWorkordersRead
  let clients ← op .readClients
  op (.saveClients clients)

def submitWorkorder (config : ServerConfig) (request : SubmitRequest) :
    ServerProg SubmitOutcome := do
  match ← onStore (normalizePortageConfigSnapshots request.portageConfig) with
  | .error failure => pure (.badRequest failure)
  | .ok normalized => do
    let (id,now) ← op .newId
    op .lockSubmission
    if ← atCapacity config then
      op .unlockSubmission
      pure (.capacityReached config.maxActiveWorkorders)
    else
      match ← op (.updateClient request.clientId request.role request.configHash
          request.systemHash) with
      | .error e => do
        op .unlockSubmission
        pure (.conflict e)
      | .ok _ => do
        op (.insertRaw id)
        op (.insertProgress id)
        op (.insertWorkorder (newWorkorder request normalized id now))
        op (.setActive request.clientId id)
        op .unlockSubmission
        recordSubmission
        pure (.accepted id)

def leaveQueue (old : WorkorderStatus) : ServerProg Unit :=
  if old = .pending then op (.sub .queueDepth) else pure ()

/-- The container map stays read-locked while docker stops the container. -/
def stopCancelledWorker (id : WorkorderId) (old : WorkorderStatus) : ServerProg Unit :=
  if old = .building then do
    match ← op (.readContainerId id) with
    | some container => do
      op (.stopContainer container)
      op .releaseContainerIds
    | none => pure ()
  else pure ()

def cancelWorkorder (id : WorkorderId) : ServerProg Unit := do
  match ← op (.cancel id) with
  | .cancelled old client => do
    sendIfWatched id (.statusChanged old .cancelled)
    op (.clearActive client)
    leaveQueue old
    stopCancelledWorker id old
    op (.add .workordersCancelled)
  | _ => pure ()

def runPeriodicSave : ServerProg Unit := do
  let results ← op .readResults
  op (.saveResults results)
  let workorders ← op .readWorkorders
  op (.saveWorkorders workorders)
  let clients ← op .readClients
  op (.saveClients clients)

def taskBody (config : ServerConfig) : TaskKind → ServerProg (Option TaskKind)
  | .submit request => do
    let _ ← submitWorkorder config request
    pure none
  | .cancel id => do
    cancelWorkorder id
    pure none
  | .queue => do
    processQueue
    pure (some .queue)
  | .process w => do
    processWorkorder config w
    op .releasePermit
    pure none
  | .evict => do
    match ← op .evict with
    | some _ => pure (some .evict)
    | none => pure none
  | .save => do
    runPeriodicSave
    pure (some .save)
  | .upload digest bytes => do
    let _ ← onStore (storeBlobForDigest digest bytes)
    pure none
  -- The pass goes on as the call with the inputs it has gathered.
  | .cleanup => do
    let active ← op .readReferences
    let now ← op (.store .now)
    pure (some (.cleanupAt active now))
  | .cleanupAt active now => do
    let _ ← onStore (cleanupSnapshotStorageAt config active now)
    pure none

def taskSpawns : ServerOp → Option TaskKind
  | .spawnProcess w => some (.process w)
  | .spawnCleanup => some .cleanup
  | _ => none

def taskStarts : TaskKind → Bool
  | .submit _ | .cancel _ | .upload _ _ => true
  | _ => false

def serverSystem (env : Codecs) (config : ServerConfig) :
    System TaskKind ServerOp ServerRes Server ServerOracle where
  sem := serverSem env config
  body := taskBody config
  spawns := taskSpawns
  starts := taskStarts

abbrev ServerPool : Type := Pool TaskKind ServerOp ServerRes Server
abbrev ServerLabel : Type := Label TaskKind ServerOp ServerRes
abbrev ServerCondition : Type := Condition TaskKind ServerOp ServerRes Server

def backgroundKind : ℕ → Option TaskKind
  | 0 => some .queue
  | 1 => some .evict
  | 2 => some .save
  | _ => none

def startPool (env : Codecs) (config : ServerConfig) (s : Server) : ServerPool :=
  ⟨s,fun i => (backgroundKind i).map (serverSystem env config).task⟩

theorem tracks_background {Q : Type} {D : Discipline TaskKind ServerOp ServerRes Q} {env : Codecs}
    {config : ServerConfig} (obeys : Obeys (serverSystem env config) D) (s : Server)
    {g : Ghost TaskKind Q} (hg : ∀ i, g i = (backgroundKind i).map D.task) :
    Tracks D (startPool env config s) g := by
  intro i
  have ht : (startPool env config s).tasks i = (backgroundKind i).map (serverSystem env config).task :=
    rfl
  rw [ht,hg i]
  cases backgroundKind i with
  | none => trivial
  | some k => exact ⟨rfl,obeys k⟩

end Remerge.ServerTasks
