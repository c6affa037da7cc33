import Remerge.SnapshotUse
import Remerge.ServerCore

/-!
# Data that tasks carry

A task hands on what it has read: the copies of the maps that it saves, the
entries its submission found in the store, the entries its cleanup pass has
listed. `watch` follows these data through every program of the server;
`watch_obeyed` says that copies are saved as read, that only the saver reads and
saves the results, that an inserted workorder names only entries its submit has
seen, and that only a cleanup pass deletes, and only what it listed and did not
spare.
-/

set_option autoImplicit false

namespace Remerge.ServerDataFlow
open StepProgram Interleaving SnapshotTypes SnapshotStore SnapshotRuntime SnapshotCleanup
open SnapshotUse ServerState ServerOps ServerTasks ServerCore

/-- The last copies of the workorder map and of the results a task has read, and
the entries it has seen present in the store or, in a cleanup pass, listed for
deletion. -/
structure Seen where
  copy : Option (Table WorkorderId Workorder)
  results : Option (Table WorkorderId WorkorderResult)
  entries : List Key

section
variable (config : ServerConfig)

def entriesNext : TaskKind → List Key → (o : StoreOp) → StoreRes o → List Key
  | .cleanupAt active now => collectedNext config active now
  | _ => foundNext

def storeAllows : TaskKind → List Key → StoreOp → Prop
  | .cleanupAt _ _, entries, o => ∀ key, o.deletes = some key → key ∈ entries
  | _, _, o => o.deletes = none

def insertAllows (entries : List Key) (w : Workorder) : TaskKind → Prop
  | .submit req => InlineConsistent req.portageConfig →
      ∀ key ∈ manifestKeys w.portageConfig.snapshotManifest, key ∈ entries
  | _ => False

def watchAllows (k : TaskKind) (q : Seen) : ServerOp → Prop
  | .saveWorkorders m => q.copy = some m
  | .readResults => k = .save
  | .saveResults m => k = .save ∧ q.results = some m
  | .insertWorkorder w => insertAllows q.entries w k
  | .store o => storeAllows k q.entries o
  | _ => True

def watchNext (k : TaskKind) (q : Seen) (o : ServerOp) (r : ServerRes o) : Seen :=
  match o, r with
  | .readWorkorders, m => { q with copy := some m }
  | .lockWorkordersRead, m => { q with copy := some m }
  | .readResults, m => { q with results := some m }
  | .store o, r => { q with entries := entriesNext config k q.entries o r }
  | _, _ => q

def watch : Discipline TaskKind ServerOp ServerRes Seen where
  monitor := fun k => ⟨watchAllows k,watchNext config k⟩
  init := fun _ => ⟨none,none,[]⟩
  final := fun _ _ _ => True

def isWatched : ServerOp → Bool
  | .saveWorkorders _ | .readResults | .saveResults _ | .insertWorkorder _ | .store _ => true
  | _ => false

end

section
variable {α β : Type} {config : ServerConfig} {k : TaskKind}

def Flows (config : ServerConfig) (k : TaskKind) (p : ServerProg α) : Prop :=
  ∀ q, Conforms ((watch config).monitor k) (fun _ _ => True) q p

theorem flows_pure (a : α) : Flows config k (pure a) := fun _ => trivial

theorem flows_bind {p : ServerProg α} {f : α → ServerProg β} (hp : Flows config k p)
    (hf : ∀ a, Flows config k (f a)) : Flows config k (p >>= f) :=
  fun q => conforms_bind (hp q) fun q' a _ => hf a q'

theorem watch_op {final : Seen → β → Prop} {o : ServerOp} {f : ServerRes o → ServerProg β}
    {q : Seen} (h : watchAllows k q o)
    (hf : ∀ r, Conforms ((watch config).monitor k) final (watchNext config k q o r) (f r)) :
    Conforms ((watch config).monitor k) final q (op o >>= f) := ⟨h,hf⟩

theorem flows_op {o : ServerOp} (h : isWatched o = false) : Flows config k (op o) := by
  intro q
  refine ⟨?_,fun _ => trivial⟩
  change watchAllows k q o
  cases o <;> trivial

variable {p : StoreProg α} {o : StoreOp}

theorem storeAllows_of_none {entries : List Key} (h : o.deletes = none) :
    storeAllows k entries o := by
  cases k with
  | cleanupAt active now =>
    intro key hk
    rw [h] at hk
    cases hk
  | _ => exact h

theorem flows_store (h : o.deletes = none) : Flows config k (op (.store o)) :=
  fun _ => ⟨storeAllows_of_none h,fun _ => trivial⟩

theorem flows_onStore (h : Finds [] p fun _ _ => True) : Flows config k (onStore p) := by
  have quiet : ∀ {γ : Type} {final : List Key → γ → Prop} (p : Prog StoreOp StoreRes γ) seen q,
      Conforms foundMonitor final seen p → Conforms ((watch config).monitor k) (fun _ _ => True) q
        (interpret (fun o => op (.store o)) p) := by
    intro γ final p
    induction p with
    | ret a => exact fun _ _ _ => trivial
    | step o next ih =>
      intro seen q hc
      exact ⟨storeAllows_of_none hc.1,fun r => ih r _ _ (hc.2 r)⟩
  exact fun q => quiet _ _ q h

theorem conforms_onStore {m : Monitor StoreOp StoreRes (List Key)}
    {final : List Key → Except Failure α → Prop} (q : Seen)
    (ha : ∀ entries o, m.allows entries o → storeAllows k entries o)
    (hn : ∀ entries o r, m.next entries o r = entriesNext config k entries o r)
    (hp : Conforms m final q.entries (outcome p)) :
    Conforms ((watch config).monitor k) (fun q' r => final q'.entries r) q (onStore p) := by
  have carried : ∀ {γ : Type} {final : List Key → γ → Prop} (p : Prog StoreOp StoreRes γ) q,
      Conforms m final q.entries p → Conforms ((watch config).monitor k)
        (fun q' r => final q'.entries r) q (interpret (fun o => op (.store o)) p) := by
    intro γ final p
    induction p with
    | ret a => exact fun _ h => h
    | step o next ih =>
      intro q hc
      refine ⟨ha _ _ hc.1,fun r => ih r _ ?_⟩
      have hr := hc.2 r
      rw [hn] at hr
      exact hr
  exact carried _ q hp

theorem flows_announceStatus (id : WorkorderId) (st : WorkorderStatus)
    (old : Option WorkorderStatus) : Flows config k (announceStatus id st old) := by
  cases old with
  | none => exact flows_pure ()
  | some old =>
    exact flows_bind (flows_op rfl) fun _ q =>
      ⟨trivial,fun m => ⟨rfl,fun _ => trivial⟩⟩

theorem flows_setWorkorderStatus (id : WorkorderId) (st : WorkorderStatus) :
    Flows config k (setWorkorderStatus id st) :=
  flows_bind (flows_op rfl) fun old => flows_announceStatus id st old

theorem flows_cleanup (w : Workorder) (container : Option ContainerId) :
    Flows config k (cleanupWorkorderRuntime w container) := by
  unfold cleanupWorkorderRuntime
  cases container <;>
    repeat' first
      | exact flows_pure _
      | exact flows_op rfl
      | exact flows_store rfl
      | refine flows_bind ?_ fun _ => ?_

theorem flows_failBeforeWorker (w : Workorder) (reason : String) :
    Flows config k (failBeforeWorker config w reason) := by
  unfold failBeforeWorker
  repeat' first
    | exact flows_setWorkorderStatus _ _
    | exact flows_cleanup _ _
    | exact flows_op rfl
    | refine flows_bind ?_ fun _ => ?_

theorem flows_failIngest (w : Workorder) (container : ContainerId) (reason : String)
    (parity : ParityManifest) : Flows config k (failIngest config w container reason parity) := by
  unfold failIngest
  repeat' first
    | exact flows_setWorkorderStatus _ _
    | exact flows_cleanup _ _
    | exact flows_op rfl
    | refine flows_bind ?_ fun _ => ?_

theorem flows_prepareImage (tag : String) : Flows config k (prepareImage tag) := by
  refine flows_bind (flows_op rfl) fun r => ?_
  cases r with
  | false => exact flows_pure _
  | true => exact flows_op rfl

theorem flows_waitForWorker (container : ContainerId) :
    Flows config k (waitForWorker config container) := by
  refine flows_bind (flows_op rfl) fun r => ?_
  cases r with
  | timedOut => exact flows_bind (flows_op rfl) fun _ => flows_pure _
  | _ => exact flows_pure _

theorem flows_reportEvents (id : WorkorderId) (events : List WorkerEvent) (built : List String)
    (failed : List FailedPackage) : Flows config k (reportEvents id events built failed) := by
  induction events generalizing built failed with
  | nil => exact flows_pure _
  | cons e es ih => cases e <;> exact flows_bind (flows_op rfl) fun _ => ih _ _

theorem flows_reportResult (w : Workorder) (result : WorkorderResult) (counter : Counter) :
    Flows config k (reportResult w result counter) :=
  flows_bind (flows_op rfl) fun _ => flows_bind (flows_op rfl) fun _ => flows_op rfl

theorem flows_finishWorkorder (w : Workorder) (waited : Except String ℤ) (built : List String)
    (failed : List FailedPackage) (distfiles : BTreeMap SnapshotEntry) (parity : ParityManifest) :
    Flows config k (finishWorkorder config w waited built failed distfiles parity) := by
  have ended : ∀ reason,
      Flows config k (finishFailed config w reason built failed distfiles parity) :=
    fun reason => flows_bind (flows_setWorkorderStatus _ _) fun _ => flows_reportResult w _ _
  unfold finishWorkorder
  split
  · exact flows_bind (flows_setWorkorderStatus _ _) fun _ =>
      flows_bind (flows_op rfl) fun _ => flows_reportResult w _ _
  · exact ended _
  · exact ended _

theorem flows_superviseWorker (w : Workorder) (container : ContainerId) :
    Flows config k (superviseWorker config w container) := by
  refine flows_bind (flows_op rfl) fun _ => flows_bind (flows_op rfl) fun r => ?_
  cases r with
  | false => exact flows_pure _
  | true =>
    refine flows_bind (flows_op rfl) fun _ => flows_bind (flows_waitForWorker container) fun waited =>
      flows_bind (flows_op rfl) fun _ => flows_bind (flows_op rfl) fun events =>
        flows_bind (flows_reportEvents w.id events [] []) fun reported =>
          flows_bind (flows_onStore (finds_ingestFinalStateParity w.id)) fun parity => ?_
    cases parity with
    | error e => exact flows_failIngest w container _ _
    | ok parity =>
      refine flows_bind (flows_onStore (finds_ingestFetchedDistfiles w.id)) fun distfiles => ?_
      cases distfiles with
      | error e => exact flows_failIngest w container _ _
      | ok distfiles =>
        exact flows_bind (flows_finishWorkorder w waited _ _ _ _) fun _ =>
          flows_bind (flows_op rfl) fun _ => flows_cleanup w _

theorem flows_processWorkorder (w : Workorder) : Flows config k (processWorkorder config w) := by
  refine flows_bind (flows_op rfl) fun _ => flows_bind (flows_op rfl) fun r => ?_
  cases r with
  | false => exact flows_op rfl
  | true =>
    refine flows_bind (flows_prepareImage _) fun image => ?_
    cases image with
    | error e => exact flows_failBeforeWorker w _
    | ok u =>
      refine flows_bind (flows_op rfl) fun _ => flows_bind (flows_setWorkorderStatus _ _) fun _ =>
        flows_bind (flows_onStore (finds_stageWorkorderRuntime w.id _)) fun staged => ?_
      cases staged with
      | error e => exact flows_failBeforeWorker w _
      | ok references =>
        refine flows_bind (flows_op rfl) fun _ => flows_bind (flows_op rfl) fun started => ?_
        cases started with
        | error e => exact flows_failBeforeWorker w _
        | ok container => exact flows_superviseWorker w container

theorem flows_sendIfWatched (id : WorkorderId) (event : BuildEvent) :
    Flows config k (sendIfWatched id event) := by
  refine flows_bind (flows_op rfl) fun r => ?_
  cases r with
  | false => exact flows_pure _
  | true => exact flows_op rfl

theorem flows_processQueue : Flows config k processQueue := by
  refine flows_bind (flows_op rfl) fun found => ?_
  cases found with
  | none => exact flows_pure _
  | some w =>
    refine flows_bind (flows_op rfl) fun claimed => ?_
    cases claimed with
    | false => exact flows_pure _
    | true =>
      exact flows_bind (flows_op rfl) fun _ => flows_bind (flows_sendIfWatched _ _) fun _ =>
        flows_bind (flows_op rfl) fun _ => flows_op rfl

theorem flows_recordSubmission : Flows config k recordSubmission := by
  have rest : Flows config k (op .unlockWorkordersRead >>= fun _ => op .readClients >>=
      fun clients => op (.saveClients clients)) :=
    flows_bind (flows_op rfl) fun _ => flows_bind (flows_op rfl) fun _ => flows_op rfl
  exact flows_bind (flows_op rfl) fun _ => flows_bind (flows_op rfl) fun _ q =>
    ⟨trivial,fun m => ⟨rfl,fun _ => rest _⟩⟩

/-- A submit inserts a workorder whose manifest it has seen in the store. -/
theorem conforms_submitWorkorder (req : SubmitRequest) (q : Seen) :
    Conforms ((watch config).monitor (.submit req)) (fun _ _ => True) q
      (submitWorkorder config req) := by
  have named : Finds q.entries (normalizePortageConfigSnapshots req.portageConfig) fun seen' r =>
      InlineConsistent req.portageConfig →
        ∀ key ∈ manifestKeys r.snapshotManifest, key ∈ seen' := finds_normalize
  refine conforms_bind (conforms_onStore (k := .submit req) (m := foundMonitor) q
    (fun _ _ h => h) (fun _ _ _ => rfl) named) ?_
  intro q' normalized hn
  cases normalized with
  | error e => trivial
  | ok normalized =>
    have capacity : Conforms ((watch config).monitor (.submit req)) (fun q'' _ => q'' = q') q'
        (atCapacity config) := by
      unfold atCapacity
      split
      · exact ⟨trivial,fun _ => rfl⟩
      · exact rfl
    refine watch_op trivial fun named => watch_op trivial fun _ => conforms_bind capacity ?_
    rintro q'' full rfl
    cases full with
    | true => exact watch_op trivial fun _ => trivial
    | false =>
      refine watch_op trivial fun updated => ?_
      cases updated with
      | error e => exact watch_op trivial fun _ => trivial
      | ok diff =>
        exact watch_op trivial fun _ => watch_op trivial fun _ => watch_op hn.1 fun _ =>
          watch_op trivial fun _ => watch_op trivial fun _ =>
            flows_bind flows_recordSubmission (fun _ => flows_pure _) _

theorem flows_cancelWorkorder (id : WorkorderId) : Flows config k (cancelWorkorder id) := by
  refine flows_bind (flows_op rfl) fun r => ?_
  cases r with
  | cancelled old client =>
    refine flows_bind (flows_sendIfWatched _ _) fun _ => flows_bind (flows_op rfl) fun _ =>
      flows_bind ?_ fun _ => flows_bind ?_ fun _ => flows_op rfl
    · unfold leaveQueue
      split
      · exact flows_op rfl
      · exact flows_pure _
    · unfold stopCancelledWorker
      split
      · refine flows_bind (flows_op rfl) fun container => ?_
        cases container with
        | none => exact flows_pure _
        | some container => exact flows_bind (flows_op rfl) fun _ => flows_op rfl
      · exact flows_pure _
  | _ => exact flows_pure _

theorem flows_runPeriodicSave : Flows config .save runPeriodicSave := by
  have rest : Flows config .save (op .readClients >>= fun clients => op (.saveClients clients)) :=
    flows_bind (flows_op rfl) fun _ => flows_op rfl
  exact fun q => ⟨rfl,fun _ => ⟨⟨rfl,rfl⟩,fun _ => ⟨trivial,fun m => ⟨rfl,fun _ => rest _⟩⟩⟩⟩

end

theorem watch_obeyed (env : Codecs) (config : ServerConfig) :
    Obeys (serverSystem env config) (watch config) := by
  intro k
  have start : ∀ {p : ServerProg (Option TaskKind)}, Flows config k p →
      Conforms ((watch config).monitor k) (fun _ _ => True) ⟨none,none,[]⟩ p := fun h => h _
  cases k with
  | submit request =>
    exact conforms_bind (conforms_submitWorkorder request _) fun _ _ _ => trivial
  | cancel id => exact start (flows_bind (flows_cancelWorkorder id) fun _ => flows_pure _)
  | queue => exact start (flows_bind flows_processQueue fun _ => flows_pure _)
  | process w =>
    exact start (flows_bind (flows_processWorkorder w) fun _ =>
      flows_bind (flows_op rfl) fun _ => flows_pure _)
  | evict =>
    refine start (flows_bind (flows_op rfl) fun r => ?_)
    cases r <;> exact flows_pure _
  | save => exact start (flows_bind flows_runPeriodicSave fun _ => flows_pure _)
  | upload digest bytes =>
    exact start (flows_bind (flows_onStore (finds_storeBlobForDigest digest bytes)) fun _ =>
      flows_pure _)
  | cleanup =>
    exact start (flows_bind (flows_op rfl) fun _ => flows_bind (flows_store rfl) fun _ =>
      flows_pure _)
  | cleanupAt active now =>
    refine conforms_bind (conforms_onStore (k := .cleanupAt active now)
      (m := collectMonitor config active now) ⟨none,none,[]⟩ (fun _ _ h => h) (fun _ _ _ => rfl)
      cleanup_deletes_unspared) fun _ _ _ => trivial

section
variable {env : Codecs} {config : ServerConfig} {w : ServerOracle} {s s' : Server}

def writesWorkorders : ServerOp → Bool
  | .insertWorkorder _ | .claim _ | .setStatus _ _ | .cancel _ | .evict => true
  | _ => false

/-- Identifiers are issued by one operation, the file of workorders is replaced
by one, and the store and the map are changed by their own operations. -/
structure Frame (o : ServerOp) (s s' : Server) : Prop where
  issued : o ≠ .newId → s'.issued = s.issued
  files : (∀ m, o ≠ .saveWorkorders m) → s'.disk.workorders = s.disk.workorders
  store : (∀ p, o ≠ .store p) → s'.store = s.store
  workorders : writesWorkorders o = false → s'.workorders = s.workorders

theorem frame_of_sem {o : ServerOp} {r : ServerRes o}
    (hs : serverSem env config o w s = some (s',r)) : Frame o s s' := by
  rw [effect_of_sem env config hs]
  cases o with
  | newId => exact ⟨fun h => absurd rfl h,fun _ => rfl,fun _ => rfl,fun _ => rfl⟩
  | saveWorkorders m => exact ⟨fun _ => rfl,fun h => absurd rfl (h m),fun _ => rfl,fun _ => rfl⟩
  | insertWorkorder _ | claim _ | setStatus _ _ | cancel _ =>
    exact ⟨fun _ => rfl,fun _ => rfl,fun _ => rfl,fun h => by cases h⟩
  | evict =>
    simp only [effect]
    split <;> exact ⟨fun _ => rfl,fun _ => rfl,fun _ => rfl,fun h => by cases h⟩
  | store o => exact ⟨fun _ => rfl,fun _ => rfl,fun h => absurd rfl (h o),fun _ => rfl⟩
  | _ => exact ⟨fun _ => rfl,fun _ => rfl,fun _ => rfl,fun _ => rfl⟩

end

def startSeen : Ghost TaskKind Seen := fun i => (backgroundKind i).map fun k => (k,⟨none,none,[]⟩)

theorem tracks_watch (env : Codecs) (config : ServerConfig) (s : Server) :
    Tracks (watch config) (startPool env config s) startSeen :=
  tracks_background (watch_obeyed env config) s fun _ => rfl

end Remerge.ServerDataFlow
