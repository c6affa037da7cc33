import Remerge.ServerTasks

/-!
# Phases of the server's tasks

Only a few operations touch the workorder map, the client registry, the
submission lock or the issued identifiers, or start something for a workorder.
A phase records how far a task has come among these. `phases_obeyed` says once
and for all in which phase each task performs which of them; the invariants of
later modules are about phases, never about program text.
-/

set_option autoImplicit false

namespace Remerge.ServerPhases
open StepProgram Interleaving SnapshotTypes SnapshotStore SnapshotRuntime SnapshotCleanup
open ServerState ServerOps ServerTasks

/-- What a task has done so far. A submit goes from `asking` to `releasing`,
the queue loop through `found` and `claimed`, a processor from `provisioning`
to `ended`, a cancel through `mustClear`; all of them end in `finished`. -/
inductive Phase where
  | asking
  | named (id : WorkorderId)
  | locked (id : WorkorderId)
  | room (id : WorkorderId)
  | admitted (id : WorkorderId)
  | inserted (id : WorkorderId)
  | releasing
  | found (w : Workorder)
  | claimed (w : Workorder)
  | provisioning
  | building
  | ended
  | mustClear (c : ClientId)
  | finished

def isCore : ServerOp → Bool
  | .newId | .lockSubmission | .unlockSubmission | .countActive | .updateClient _ _ _ _
  | .setActive _ _ | .clearActive _ | .insertWorkorder _ | .findPending | .claim _
  | .setStatus _ _ | .cancel _ | .evict | .startWorker _ _ | .spawnProcess _ => true
  | _ => false

section
variable (config : ServerConfig)

inductive Allowed : TaskKind → Phase → ServerOp → Prop where
  | plain {k : TaskKind} {q : Phase} {o : ServerOp} (h : isCore o = false) : Allowed k q o
  | newId {req : SubmitRequest} : Allowed (.submit req) .asking .newId
  | lock {req : SubmitRequest} {id : WorkorderId} :
      Allowed (.submit req) (.named id) .lockSubmission
  | count {req : SubmitRequest} {id : WorkorderId} (h : 0 < config.maxActiveWorkorders) :
      Allowed (.submit req) (.locked id) .countActive
  | unlimited {req : SubmitRequest} {id : WorkorderId} {role : ClientRole} {ch sh : String}
      (h : config.maxActiveWorkorders = 0) :
      Allowed (.submit req) (.locked id) (.updateClient req.clientId role ch sh)
  | update {req : SubmitRequest} {id : WorkorderId} {role : ClientRole} {ch sh : String} :
      Allowed (.submit req) (.room id) (.updateClient req.clientId role ch sh)
  | insert {req : SubmitRequest} {w : Workorder} (hc : w.clientId = req.clientId)
      (hs : w.status = .pending) : Allowed (.submit req) (.admitted w.id) (.insertWorkorder w)
  | setActive {req : SubmitRequest} {id : WorkorderId} :
      Allowed (.submit req) (.inserted id) (.setActive req.clientId id)
  | unlock {req : SubmitRequest} : Allowed (.submit req) .releasing .unlockSubmission
  | cancel {id : WorkorderId} : Allowed (.cancel id) .asking (.cancel id)
  | cancelClear {id : WorkorderId} {c : ClientId} :
      Allowed (.cancel id) (.mustClear c) (.clearActive c)
  | find : Allowed .queue .asking .findPending
  | claim {w : Workorder} : Allowed .queue (.found w) (.claim w.id)
  | spawn {w : Workorder} : Allowed .queue (.claimed w) (.spawnProcess w)
  | build {w : Workorder} : Allowed (.process w) .provisioning (.setStatus w.id .building)
  | endEarly {w : Workorder} {st : WorkorderStatus} (h : st.terminal) :
      Allowed (.process w) .provisioning (.setStatus w.id st)
  | endBuild {w : Workorder} {st : WorkorderStatus} (h : st.terminal) :
      Allowed (.process w) .building (.setStatus w.id st)
  | startWorker {w : Workorder} {tag : String} :
      Allowed (.process w) .building (.startWorker w.id tag)
  | endClear {w : Workorder} : Allowed (.process w) .ended (.clearActive w.clientId)
  | evict : Allowed .evict .asking .evict

def Phase.afterCount (n : ℕ) : Phase → Phase
  | .locked id => if n < config.maxActiveWorkorders then .room id else .releasing
  | q => q

def Phase.afterUpdate : Phase → Phase
  | .locked id => .admitted id
  | .room id => .admitted id
  | q => q

def Phase.afterClaim : Phase → Phase
  | .found w => .claimed w
  | q => q

def phaseNext (q : Phase) (o : ServerOp) (r : ServerRes o) : Phase :=
  match o, r with
  | .newId, r => .named r.1
  | .lockSubmission, _ => match q with
      | .named id => .locked id
      | q => q
  | .countActive, n => q.afterCount config n
  | .updateClient _ _ _ _, .ok _ => q.afterUpdate
  | .updateClient _ _ _ _, .error _ => .releasing
  | .insertWorkorder w, _ => .inserted w.id
  | .setActive _ _, _ => .releasing
  | .unlockSubmission, _ => .finished
  | .findPending, some w => .found w
  | .findPending, none => .finished
  | .claim _, true => q.afterClaim
  | .claim _, false => .finished
  | .spawnProcess _, _ => .finished
  | .cancel _, .cancelled _ c => .mustClear c
  | .cancel _, _ => .finished
  | .clearActive _, _ => .finished
  | .setStatus _ st, _ => if st = .building then .building else .ended
  | _, _ => q

def phaseInit : TaskKind → Phase
  | .process _ => .provisioning
  | _ => .asking

/-- A submit may end before it takes an identifier, a processor before it has
written a terminal status (no progress channel, or the panic on a missing raw
channel). -/
def phaseFinal : TaskKind → Phase → Option TaskKind → Prop
  | .submit _, q, k => k = none ∧ (q = .asking ∨ q = .finished)
  | .cancel _, q, k => k = none ∧ q = .finished
  | .queue, q, k => k = some .queue ∧ q = .finished
  | .process _, q, k => k = none ∧ (q = .provisioning ∨ q = .building ∨ q = .finished)
  | .evict, _, k => k = none ∨ k = some .evict
  | .save, _, k => k = some .save
  | .upload _ _, _, k => k = none
  | .cleanup, _, k => ∃ active now, k = some (.cleanupAt active now)
  | .cleanupAt _ _, _, k => k = none

def phases : Discipline TaskKind ServerOp ServerRes Phase where
  monitor := fun k => ⟨Allowed config k,phaseNext config⟩
  init := phaseInit
  final := phaseFinal

end

section
variable {config : ServerConfig} {k : TaskKind} {q : Phase} {α β : Type}

abbrev Keeps (config : ServerConfig) (k : TaskKind) (q q' : Phase) (p : ServerProg α) : Prop :=
  Conforms ((phases config).monitor k) (fun r _ => r = q') q p

theorem phaseNext_plain (q : Phase) (o : ServerOp) (r : ServerRes o) (h : isCore o = false) :
    phaseNext config q o r = q := by
  cases o <;> first | rfl | simp [isCore] at h

theorem phaseNext_terminal (q : Phase) (id : WorkorderId) (st : WorkorderStatus)
    (r : Option WorkorderStatus) (h : st.terminal) :
    phaseNext config q (.setStatus id st) r = .ended := by
  cases st <;> simp [WorkorderStatus.terminal] at h <;> rfl

variable {final : Phase → β → Prop} {o : ServerOp}

theorem keeps_bind {q' : Phase} {p : ServerProg α} {f : α → ServerProg β}
    (hp : Keeps config k q q' p) (hf : ∀ a, Conforms ((phases config).monitor k) final q' (f a)) :
    Conforms ((phases config).monitor k) final q (p >>= f) :=
  conforms_bind hp (fun _ a h => h ▸ hf a)

variable {f : ServerRes o → ServerProg β}

theorem conforms_op (h : Allowed config k q o)
    (hf : ∀ r, Conforms ((phases config).monitor k) final (phaseNext config q o r) (f r)) :
    Conforms ((phases config).monitor k) final q (op o >>= f) := ⟨h,hf⟩

theorem conforms_plain (h : isCore o = false)
    (hf : ∀ r, Conforms ((phases config).monitor k) final q (f r)) :
    Conforms ((phases config).monitor k) final q (op o >>= f) :=
  conforms_op (.plain h) fun r => by
    rw [phaseNext_plain q o r h]
    exact hf r

theorem keeps_plain (h : isCore o = false) : Keeps config k q q (op o) :=
  ⟨.plain h,fun r => phaseNext_plain q o r h⟩

theorem keeps_onStore (p : StoreProg α) : Keeps config k q q (onStore p) := by
  unfold onStore
  induction outcome p with
  | ret a => rfl
  | step o next ih => exact conforms_plain rfl (fun r => ih r)

theorem keeps_announceStatus (id : WorkorderId) (st : WorkorderStatus)
    (old : Option WorkorderStatus) : Keeps config k q q (announceStatus id st old) := by
  cases old with
  | none => rfl
  | some old =>
    exact conforms_plain rfl fun _ => conforms_plain rfl fun _ => keeps_plain rfl

theorem keeps_setBuilding (w : Workorder) :
    Keeps config (.process w) .provisioning .building (setWorkorderStatus w.id .building) :=
  conforms_op .build fun r => keeps_announceStatus w.id .building r

theorem keeps_setTerminal (w : Workorder) (st : WorkorderStatus) (h : st.terminal)
    (hq : q = .provisioning ∨ q = .building) :
    Keeps config (.process w) q .ended (setWorkorderStatus w.id st) := by
  have ha : Allowed config (.process w) q (.setStatus w.id st) := by
    rcases hq with rfl | rfl
    · exact .endEarly h
    · exact .endBuild h
  refine conforms_op ha fun r => ?_
  rw [phaseNext_terminal q w.id st r h]
  exact keeps_announceStatus w.id st r

theorem keeps_cleanup (w : Workorder) (container : Option ContainerId) :
    Keeps config (.process w) .ended .finished (cleanupWorkorderRuntime w container) := by
  refine conforms_plain rfl fun _ => conforms_plain rfl fun _ => conforms_plain rfl fun _ =>
    conforms_plain rfl fun _ => conforms_plain rfl fun _ => conforms_op .endClear fun _ => ?_
  cases container with
  | none => exact conforms_plain rfl fun _ => keeps_plain rfl
  | some container =>
    exact conforms_plain rfl fun _ => conforms_plain rfl fun _ => keeps_plain rfl

theorem keeps_failBeforeWorker (w : Workorder) (reason : String)
    (hq : q = .provisioning ∨ q = .building) :
    Keeps config (.process w) q .finished (failBeforeWorker config w reason) :=
  keeps_bind (keeps_setTerminal w _ rfl hq) fun _ =>
    conforms_plain rfl fun _ => conforms_plain rfl fun _ => conforms_plain rfl fun _ =>
      conforms_plain rfl fun _ => keeps_cleanup w none

theorem keeps_failIngest (w : Workorder) (container : ContainerId) (reason : String)
    (parity : ParityManifest) :
    Keeps config (.process w) .building .finished (failIngest config w container reason parity) :=
  keeps_bind (keeps_setTerminal w _ rfl (.inr rfl)) fun _ =>
    conforms_plain rfl fun _ => conforms_plain rfl fun _ => conforms_plain rfl fun _ =>
      conforms_plain rfl fun _ => keeps_cleanup w (some container)

theorem keeps_prepareImage (tag : String) : Keeps config k q q (prepareImage tag) := by
  refine conforms_plain rfl fun r => ?_
  cases r with
  | false => rfl
  | true => exact keeps_plain rfl

theorem keeps_waitForWorker (container : ContainerId) :
    Keeps config k q q (waitForWorker config container) := by
  refine conforms_plain rfl fun r => ?_
  cases r with
  | exited code => rfl
  | failed e => rfl
  | timedOut => exact conforms_plain rfl fun _ => rfl

theorem keeps_reportEvents (id : WorkorderId) (events : List WorkerEvent) (built : List String)
    (failed : List FailedPackage) : Keeps config k q q (reportEvents id events built failed) := by
  induction events generalizing built failed with
  | nil => rfl
  | cons e es ih =>
    cases e with
    | packageBuilt atom secs | packageFailed atom reason =>
      exact conforms_plain rfl fun _ => ih _ _

theorem keeps_reportResult (w : Workorder) (result : WorkorderResult) (counter : Counter) :
    Keeps config k q q (reportResult w result counter) :=
  conforms_plain rfl fun _ => conforms_plain rfl fun _ => keeps_plain rfl

theorem keeps_finishFailed (w : Workorder) (reason : String) (built : List String)
    (failed : List FailedPackage) (distfiles : BTreeMap SnapshotEntry) (parity : ParityManifest) :
    Keeps config (.process w) .building .ended
      (finishFailed config w reason built failed distfiles parity) :=
  keeps_bind (keeps_setTerminal w _ rfl (.inr rfl)) fun _ => keeps_reportResult w _ _

theorem keeps_finishWorkorder (w : Workorder) (waited : Except String ℤ) (built : List String)
    (failed : List FailedPackage) (distfiles : BTreeMap SnapshotEntry) (parity : ParityManifest) :
    Keeps config (.process w) .building .ended
      (finishWorkorder config w waited built failed distfiles parity) := by
  unfold finishWorkorder
  split
  · exact keeps_bind (keeps_setTerminal w _ rfl (.inr rfl)) fun _ =>
      conforms_plain rfl fun _ => keeps_reportResult w _ _
  · exact keeps_finishFailed w _ _ _ _ _
  · exact keeps_finishFailed w _ _ _ _ _

def processFinal (q : Phase) : Prop := q = .provisioning ∨ q = .building ∨ q = .finished

theorem conforms_superviseWorker (w : Workorder) (container : ContainerId) :
    Conforms ((phases config).monitor (.process w)) (fun q _ => processFinal q) .building
      (superviseWorker config w container) := by
  have done : ∀ {p : ServerProg Unit}, Keeps config (.process w) .building .finished p →
      Conforms ((phases config).monitor (.process w)) (fun q _ => processFinal q) .building p :=
    fun h => conforms_mono h fun _ _ e => .inr (.inr e)
  refine conforms_plain rfl fun _ => conforms_plain rfl fun r => ?_
  cases r with
  | false => exact .inr (.inl rfl)
  | true =>
    refine conforms_plain rfl fun _ => keeps_bind (keeps_waitForWorker container) fun waited =>
      conforms_plain rfl fun _ => conforms_plain rfl fun events =>
        keeps_bind (keeps_reportEvents w.id events [] []) fun reported =>
          keeps_bind (keeps_onStore _) fun parity => ?_
    cases parity with
    | error e => exact done (keeps_failIngest w container _ _)
    | ok parity =>
      refine keeps_bind (keeps_onStore _) fun distfiles => ?_
      cases distfiles with
      | error e => exact done (keeps_failIngest w container _ _)
      | ok distfiles =>
        exact done (keeps_bind (keeps_finishWorkorder w waited _ _ _ _) fun _ =>
          conforms_plain rfl fun _ => keeps_cleanup w (some container))

theorem conforms_processWorkorder (w : Workorder) :
    Conforms ((phases config).monitor (.process w)) (fun q _ => processFinal q) .provisioning
      (processWorkorder config w) := by
  have done : ∀ {q : Phase} {p : ServerProg Unit}, Keeps config (.process w) q .finished p →
      Conforms ((phases config).monitor (.process w)) (fun q _ => processFinal q) q p :=
    fun h => conforms_mono h fun _ _ e => .inr (.inr e)
  refine conforms_plain rfl fun _ => conforms_plain rfl fun r => ?_
  cases r with
  | false => exact conforms_mono (keeps_plain (q := .provisioning) rfl) fun _ _ e => .inl e
  | true =>
    refine keeps_bind (keeps_prepareImage w.systemId) fun image => ?_
    cases image with
    | error e => exact done (keeps_failBeforeWorker w _ (.inl rfl))
    | ok u =>
      refine conforms_plain rfl fun _ => keeps_bind (keeps_setBuilding w) fun _ =>
        keeps_bind (keeps_onStore _) fun staged => ?_
      cases staged with
      | error e => exact done (keeps_failBeforeWorker w _ (.inr rfl))
      | ok references =>
        refine conforms_plain rfl fun _ => conforms_op .startWorker fun started => ?_
        cases started with
        | error e => exact done (keeps_failBeforeWorker w _ (.inr rfl))
        | ok container => exact conforms_superviseWorker w container

theorem keeps_recordSubmission : Keeps config k q q recordSubmission :=
  conforms_plain rfl fun _ => conforms_plain rfl fun _ => conforms_plain rfl fun _ =>
    conforms_plain rfl fun _ => conforms_plain rfl fun _ => conforms_plain rfl fun _ =>
      keeps_plain rfl

theorem conforms_atCapacity (req : SubmitRequest) (id : WorkorderId) :
    Conforms ((phases config).monitor (.submit req))
      (fun q full => if full then q = .releasing
        else q = .room id ∨ (q = .locked id ∧ config.maxActiveWorkorders = 0))
      (.locked id) (atCapacity config) := by
  unfold atCapacity
  split
  · next h =>
    refine conforms_op (.count h) fun n => ?_
    by_cases hn : n < config.maxActiveWorkorders
    · have hd : decide (config.maxActiveWorkorders ≤ n) = false := by simp [hn]
      simp [phaseNext,Phase.afterCount,hn,hd]
    · have hd : decide (config.maxActiveWorkorders ≤ n) := by simpa using hn
      simp [phaseNext,Phase.afterCount,hn,hd]
  · next h => exact .inr ⟨rfl,by omega⟩

theorem conforms_submitWorkorder (req : SubmitRequest) :
    Conforms ((phases config).monitor (.submit req))
      (fun q _ => q = .asking ∨ q = .finished) .asking (submitWorkorder config req) := by
  refine keeps_bind (keeps_onStore _) fun normalized => ?_
  cases normalized with
  | error e => exact .inl rfl
  | ok normalized =>
    refine conforms_op .newId fun named => conforms_op .lock fun _ =>
      conforms_bind (conforms_atCapacity req named.1) fun q full hq => ?_
    cases full with
    | true =>
      subst hq
      exact conforms_op .unlock fun _ => .inr rfl
    | false =>
      have ha : Allowed config (.submit req) q
          (.updateClient req.clientId req.role req.configHash req.systemHash) := by
        rcases hq with rfl | ⟨rfl,h⟩
        · exact .update
        · exact .unlimited h
      have hn : q.afterUpdate = .admitted named.1 := by rcases hq with rfl | ⟨rfl,_⟩ <;> rfl
      refine conforms_op ha fun r => ?_
      cases r with
      | error e => exact conforms_op .unlock fun _ => .inr rfl
      | ok diff =>
        change Conforms _ _ q.afterUpdate _
        rw [hn]
        exact conforms_plain rfl fun _ => conforms_plain rfl fun _ =>
          conforms_op (.insert (w := newWorkorder req normalized named.1 named.2) rfl rfl) fun _ =>
            conforms_op .setActive fun _ => conforms_op .unlock fun _ =>
              keeps_bind keeps_recordSubmission fun _ => .inr rfl

theorem keeps_sendIfWatched (id : WorkorderId) (event : BuildEvent) :
    Keeps config k q q (sendIfWatched id event) := by
  refine conforms_plain rfl fun r => ?_
  cases r with
  | false => rfl
  | true => exact keeps_plain rfl

theorem keeps_leaveQueue (old : WorkorderStatus) : Keeps config k q q (leaveQueue old) := by
  unfold leaveQueue
  split
  · exact keeps_plain rfl
  · rfl

theorem keeps_stopCancelledWorker (id : WorkorderId) (old : WorkorderStatus) :
    Keeps config k q q (stopCancelledWorker id old) := by
  unfold stopCancelledWorker
  split
  · refine conforms_plain rfl fun r => ?_
    cases r with
    | none => rfl
    | some container => exact conforms_plain rfl fun _ => keeps_plain rfl
  · rfl

theorem keeps_cancelWorkorder (id : WorkorderId) :
    Keeps config (.cancel id) .asking .finished (cancelWorkorder id) := by
  refine conforms_op .cancel fun r => ?_
  cases r with
  | notFound => rfl
  | notCancellable => rfl
  | cancelled old client =>
    exact keeps_bind (keeps_sendIfWatched id _) fun _ => conforms_op .cancelClear fun _ =>
      keeps_bind (keeps_leaveQueue old) fun _ =>
        keeps_bind (keeps_stopCancelledWorker id old) fun _ => keeps_plain rfl

theorem keeps_processQueue : Keeps config .queue .asking .finished processQueue := by
  refine conforms_op .find fun r => ?_
  cases r with
  | none => rfl
  | some w =>
    refine conforms_op .claim fun claimed => ?_
    cases claimed with
    | false => rfl
    | true =>
      exact conforms_plain rfl fun _ => keeps_bind (keeps_sendIfWatched w.id _) fun _ =>
        conforms_plain rfl fun _ => ⟨.spawn,fun _ => rfl⟩

theorem keeps_runPeriodicSave : Keeps config k q q runPeriodicSave :=
  conforms_plain rfl fun _ => conforms_plain rfl fun _ => conforms_plain rfl fun _ =>
    conforms_plain rfl fun _ => conforms_plain rfl fun _ => keeps_plain rfl

end

theorem phases_obeyed (env : Codecs) (config : ServerConfig) :
    Obeys (serverSystem env config) (phases config) := by
  intro k
  cases k with
  | submit req => exact conforms_bind (conforms_submitWorkorder req) fun _ _ h => ⟨rfl,h⟩
  | cancel id => exact keeps_bind (keeps_cancelWorkorder id) fun _ => ⟨rfl,rfl⟩
  | queue => exact keeps_bind keeps_processQueue fun _ => ⟨rfl,rfl⟩
  | process w =>
    refine conforms_bind (conforms_processWorkorder w) fun q _ h => ?_
    exact conforms_plain rfl fun _ => ⟨rfl,h⟩
  | evict =>
    refine conforms_op .evict fun r => ?_
    cases r with
    | none => exact .inl rfl
    | some n => exact .inr rfl
  | save => exact keeps_bind keeps_runPeriodicSave fun _ => rfl
  | upload d b | cleanupAt active now => exact keeps_bind (keeps_onStore _) fun _ => rfl
  | cleanup => exact conforms_plain rfl fun active => conforms_plain rfl fun now => ⟨active,now,rfl⟩

end Remerge.ServerPhases
