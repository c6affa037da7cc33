import Remerge.ServerTasks

/-!
# Stages of the server's tasks

Phases follow what a task does to the workorder map. Stages follow the rest of
what it owes: the channels a submit makes and a processor removes, the result
that goes with a finished event, the queue counter, and a copy of the map that
still has to be written. `stages_obeyed` says in which stage each task performs
which of these operations.
-/

set_option autoImplicit false

namespace Remerge.ServiceStages
open StepProgram Interleaving SnapshotTypes SnapshotStore SnapshotRuntime SnapshotCleanup
open ServerState ServerOps ServerTasks

/-- A submit goes from `named` to `listed`, the queue loop from `found` to
`waiting`, a cancel of a pending workorder through `owes`. A processor is
`watched` once it has its progress channel, `started` with a container,
`relaying` with the raw channel; it is `failing` if it ended before that, and
otherwise `ending` until its result is `recorded`. -/
inductive Stage where
  | fresh
  | named (id : WorkorderId)
  | admitted (id : WorkorderId)
  | raw (id : WorkorderId)
  | made (id : WorkorderId)
  | listed
  | found (w : Workorder)
  | took (w : Workorder)
  | waiting (w : Workorder)
  | owes
  | watched
  | started
  | relaying
  | failing
  | ending
  | recorded
  | closing
  | closed
  | over

def Stage.strict : Stage → Bool
  | .listed | .took _ | .waiting _ | .owes => true
  | _ => false

def isFinishedEvent : BuildEvent → Bool
  | .finished _ _ => true
  | _ => false

def isService : ServerOp → Bool
  | .newId | .countActive | .updateClient _ _ _ _ | .insertWorkorder _ | .findPending | .claim _
  | .setStatus _ _ | .cancel _ | .evict | .insertRaw _ | .insertProgress _ | .insertStdin _
  | .hasProgress _ | .hasRaw _ | .removeRaw _ | .removeProgress _ | .removeStdin _
  | .insertResult _ _ | .insertContainerId _ _ | .removeContainerId _ | .spawnProcess _ => true
  | .send _ e => isFinishedEvent e
  | .add c | .sub c => c == .queueDepth
  | _ => false

inductive Serves : TaskKind → Stage → ServerOp → Prop where
  | plain {k : TaskKind} {q : Stage} {o : ServerOp} (h : isService o = false)
      (hq : q.strict = false) : Serves k q o
  | newId {req : SubmitRequest} : Serves (.submit req) .fresh .newId
  | count {req : SubmitRequest} {id : WorkorderId} : Serves (.submit req) (.named id) .countActive
  | update {req : SubmitRequest} {id : WorkorderId} {c : ClientId} {role : ClientRole}
      {ch sh : String} : Serves (.submit req) (.named id) (.updateClient c role ch sh)
  | makeRaw {req : SubmitRequest} {id : WorkorderId} :
      Serves (.submit req) (.admitted id) (.insertRaw id)
  | makeProgress {req : SubmitRequest} {id : WorkorderId} :
      Serves (.submit req) (.raw id) (.insertProgress id)
  | list {req : SubmitRequest} {w : Workorder} :
      Serves (.submit req) (.made w.id) (.insertWorkorder w)
  | listedActive {req : SubmitRequest} {c : ClientId} {id : WorkorderId} :
      Serves (.submit req) .listed (.setActive c id)
  | listedUnlock {req : SubmitRequest} : Serves (.submit req) .listed .unlockSubmission
  | listedAdd {req : SubmitRequest} : Serves (.submit req) .listed (.add .workordersSubmitted)
  | enqueue {req : SubmitRequest} : Serves (.submit req) .listed (.add .queueDepth)
  | find : Serves .queue .fresh .findPending
  | claim {w : Workorder} : Serves .queue (.found w) (.claim w.id)
  | dequeue {w : Workorder} : Serves .queue (.took w) (.sub .queueDepth)
  | waitingLook {w : Workorder} {id : WorkorderId} : Serves .queue (.waiting w) (.hasProgress id)
  | waitingSend {w : Workorder} {id : WorkorderId} {e : BuildEvent} (h : isFinishedEvent e = false) :
      Serves .queue (.waiting w) (.send id e)
  | waitingPermit {w : Workorder} : Serves .queue (.waiting w) .acquirePermit
  | spawn {w : Workorder} : Serves .queue (.waiting w) (.spawnProcess w)
  | cancel {id : WorkorderId} : Serves (.cancel id) .fresh (.cancel id)
  | cancelLook {id id' : WorkorderId} : Serves (.cancel id) .over (.hasProgress id')
  | owesLook {id id' : WorkorderId} : Serves (.cancel id) .owes (.hasProgress id')
  | owesSend {id id' : WorkorderId} {e : BuildEvent} (h : isFinishedEvent e = false) :
      Serves (.cancel id) .owes (.send id' e)
  | owesClear {id : WorkorderId} {c : ClientId} : Serves (.cancel id) .owes (.clearActive c)
  | leave {id : WorkorderId} : Serves (.cancel id) .owes (.sub .queueDepth)
  | watch {w : Workorder} : Serves (.process w) .fresh (.hasProgress w.id)
  | build {w : Workorder} : Serves (.process w) .watched (.setStatus w.id .building)
  | fail {w : Workorder} {st : WorkorderStatus} (h : st.terminal) :
      Serves (.process w) .watched (.setStatus w.id st)
  | attach {w : Workorder} {c : ContainerId} :
      Serves (.process w) .watched (.insertContainerId w.id c)
  | look {w : Workorder} : Serves (.process w) .started (.hasRaw w.id)
  | openStdin {w : Workorder} : Serves (.process w) .relaying (.insertStdin w.id)
  | detach {w : Workorder} : Serves (.process w) .relaying (.removeRaw w.id)
  | finish {w : Workorder} {st : WorkorderStatus} (h : st.terminal) :
      Serves (.process w) .relaying (.setStatus w.id st)
  | recordFailure {w : Workorder} {result : WorkorderResult} :
      Serves (.process w) .failing (.insertResult w.id result)
  | record {w : Workorder} {result : WorkorderResult} :
      Serves (.process w) .ending (.insertResult w.id result)
  | tellEarly {w : Workorder} {built failed : List String} :
      Serves (.process w) .failing (.send w.id (.finished built failed))
  | tell {w : Workorder} {built failed : List String} :
      Serves (.process w) .recorded (.send w.id (.finished built failed))
  | forget {w : Workorder} {q : Stage} (hq : q = .failing ∨ q = .recorded) :
      Serves (.process w) q (.removeContainerId w.id)
  | close {w : Workorder} {q : Stage} (hq : q = .failing ∨ q = .recorded) :
      Serves (.process w) q (.removeProgress w.id)
  | closeRaw {w : Workorder} : Serves (.process w) .closing (.removeRaw w.id)
  | closeStdin {w : Workorder} : Serves (.process w) .closed (.removeStdin w.id)
  | evict : Serves .evict .fresh .evict

section
variable (config : ServerConfig)

def Stage.afterUpdate : Stage → Stage
  | .named id => .admitted id
  | q => q

def Stage.afterClaim : Stage → Stage
  | .found w => .took w
  | q => q

def Stage.afterSub : Stage → Stage
  | .took w => .waiting w
  | _ => .over

def Stage.afterLook (present : Bool) : Stage → Stage
  | .fresh => if present then .watched else .over
  | q => q

def Stage.afterEnd : Stage → Stage
  | .watched => .failing
  | _ => .ending

def Stage.afterResult : Stage → Stage
  | .ending => .recorded
  | q => q

def Stage.afterRawGone : Stage → Stage
  | .closing => .closed
  | q => q

def stageNext (q : Stage) (o : ServerOp) (r : ServerRes o) : Stage :=
  match o, r with
  | .newId, r => .named r.1
  | .countActive, n => if n < config.maxActiveWorkorders then q else .over
  | .updateClient _ _ _ _, .ok _ => q.afterUpdate
  | .updateClient _ _ _ _, .error _ => .over
  | .insertRaw id, _ => .raw id
  | .insertProgress id, _ => .made id
  | .insertWorkorder _, _ => .listed
  | .add .queueDepth, _ => .over
  | .findPending, some w => .found w
  | .findPending, none => .over
  | .claim _, true => q.afterClaim
  | .claim _, false => .over
  | .sub .queueDepth, _ => q.afterSub
  | .spawnProcess _, _ => .over
  | .cancel _, .cancelled .pending _ => .owes
  | .cancel _, _ => .over
  | .hasProgress _, present => q.afterLook present
  | .setStatus _ st, _ => if st = .building then q else q.afterEnd
  | .insertContainerId _ _, _ => .started
  | .hasRaw _, true => .relaying
  | .hasRaw _, false => .over
  | .insertResult _ _, _ => q.afterResult
  | .removeProgress _, _ => .closing
  | .removeRaw _, _ => q.afterRawGone
  | .removeStdin _, _ => .over
  | _, _ => q

structure Post where
  stage : Stage
  holds : Bool

def holdsNext (holds : Bool) : ServerOp → Bool
  | .readWorkorders | .lockWorkordersRead => true
  | .saveWorkorders _ => false
  | _ => holds

def postAllows (k : TaskKind) (q : Post) (o : ServerOp) : Prop :=
  Serves k q.stage o ∧ ∀ m, o = .saveWorkorders m → q.holds

def postNext (q : Post) (o : ServerOp) (r : ServerRes o) : Post :=
  ⟨stageNext config q.stage o r,holdsNext q.holds o⟩

def stageFinal : TaskKind → Stage → Option TaskKind → Prop
  | .submit _, q, k => k = none ∧ (q = .fresh ∨ q = .over)
  | .cancel _, q, k => k = none ∧ q = .over
  | .queue, q, k => k = some .queue ∧ q = .over
  | .process _, q, k => k = none ∧ q = .over
  | .evict, q, k => (k = none ∨ k = some .evict) ∧ q = .fresh
  | .save, q, k => k = some .save ∧ q = .fresh
  | .upload _ _, q, k => k = none ∧ q = .fresh
  | .cleanup, q, k => (∃ active now, k = some (.cleanupAt active now)) ∧ q = .fresh
  | .cleanupAt _ _, q, k => k = none ∧ q = .fresh

def stages : Discipline TaskKind ServerOp ServerRes Post where
  monitor := fun k => ⟨postAllows k,postNext config⟩
  init := fun _ => ⟨.fresh,false⟩
  final := fun k q k' => stageFinal k q.stage k' ∧ q.holds = false

end

section
variable {config : ServerConfig} {k : TaskKind} {q : Stage} {α β : Type}

abbrev Moves (config : ServerConfig) (k : TaskKind) (q q' : Stage) (p : ServerProg α) : Prop :=
  Conforms ((stages config).monitor k) (fun r _ => r = ⟨q',false⟩) ⟨q,false⟩ p

def copies : ServerOp → Bool
  | .readWorkorders | .lockWorkordersRead | .saveWorkorders _ => true
  | _ => false

theorem stageNext_plain (q : Stage) (o : ServerOp) (r : ServerRes o) (h : isService o = false) :
    stageNext config q o r = q := by
  cases o with
  | add c | sub c => cases c <;> first | rfl | cases h
  | _ => first | rfl | cases h

theorem stageNext_terminal (q : Stage) (id : WorkorderId) {st : WorkorderStatus}
    (h : st.terminal) (r : Option WorkorderStatus) :
    stageNext config q (.setStatus id st) r = q.afterEnd := by
  cases st <;> first | rfl | cases h

variable {o : ServerOp} {final : Post → β → Prop}

theorem holdsNext_of_not_copies (h : copies o = false) (b : Bool) : holdsNext b o = b := by
  cases o <;> first | rfl | cases h

theorem moves_bind {q' : Stage} {p : ServerProg α} {f : α → ServerProg β}
    (hp : Moves config k q q' p)
    (hf : ∀ a, Conforms ((stages config).monitor k) final ⟨q',false⟩ (f a)) :
    Conforms ((stages config).monitor k) final ⟨q,false⟩ (p >>= f) :=
  conforms_bind hp (fun _ a h => h ▸ hf a)

theorem conforms_serve {f : ServerRes o → ServerProg β} (h : Serves k q o) (hc : copies o = false)
    (hf : ∀ r, Conforms ((stages config).monitor k) final ⟨stageNext config q o r,false⟩ (f r)) :
    Conforms ((stages config).monitor k) final ⟨q,false⟩ (op o >>= f) := by
  refine ⟨⟨h,?_⟩,fun r => ?_⟩
  · rintro m rfl
    cases hc
  · change Conforms ((stages config).monitor k) final (Post.mk _ (holdsNext false o)) (f r)
    rw [holdsNext_of_not_copies hc]
    exact hf r

theorem moves_serve (h : Serves k q o) (hc : copies o = false) {q' : Stage}
    (hq : ∀ r, stageNext config q o r = q') : Moves config k q q' (op o) :=
  conforms_serve (f := .ret) h hc fun r => congrArg (Post.mk · false) (hq r)

theorem conforms_plain {f : ServerRes o → ServerProg β} (h : isService o = false)
    (hc : copies o = false) (hq : q.strict = false)
    (hf : ∀ r, Conforms ((stages config).monitor k) final ⟨q,false⟩ (f r)) :
    Conforms ((stages config).monitor k) final ⟨q,false⟩ (op o >>= f) :=
  conforms_serve (.plain h hq) hc fun r => by
    rw [stageNext_plain q o r h]
    exact hf r

theorem moves_plain (h : isService o = false) (hc : copies o = false) (hq : q.strict = false) :
    Moves config k q q (op o) :=
  moves_serve (.plain h hq) hc fun r => stageNext_plain q o r h

theorem conforms_copy {f : ServerProg β} (hq : q.strict = false)
    (hf : Conforms ((stages config).monitor k) final ⟨q,false⟩ f) :
    Conforms ((stages config).monitor k) final ⟨q,false⟩
      (op .readWorkorders >>= fun m => op (.saveWorkorders m) >>= fun _ => f) :=
  ⟨⟨.plain rfl hq,fun _ e => nomatch e⟩,fun _ =>
    ⟨⟨.plain rfl hq,fun _ _ => rfl⟩,fun _ => hf⟩⟩

theorem moves_onStore (p : StoreProg α) (hq : q.strict = false) :
    Moves config k q q (onStore p) := by
  unfold onStore
  induction outcome p with
  | ret a => rfl
  | step o next ih => exact conforms_plain rfl rfl hq (fun r => ih r)

theorem moves_announceStatus (id : WorkorderId) (st : WorkorderStatus)
    (old : Option WorkorderStatus) (hq : q.strict = false) :
    Moves config k q q (announceStatus id st old) := by
  cases old with
  | none => rfl
  | some old =>
    exact conforms_plain rfl rfl hq fun _ => ⟨⟨.plain rfl hq,fun _ e => nomatch e⟩,fun _ =>
      ⟨⟨.plain rfl hq,fun _ _ => rfl⟩,fun _ => rfl⟩⟩

theorem moves_setTerminal (w : Workorder) {st : WorkorderStatus} (h : st.terminal)
    (hq : q = .watched ∨ q = .relaying) :
    Moves config (.process w) q q.afterEnd (setWorkorderStatus w.id st) := by
  have hs : Serves (.process w) q (.setStatus w.id st) := by
    rcases hq with rfl | rfl
    · exact .fail h
    · exact .finish h
  refine conforms_serve hs rfl fun r => ?_
  rw [stageNext_terminal q w.id h r]
  refine moves_announceStatus w.id st r ?_
  rcases hq with rfl | rfl <;> rfl

theorem moves_setBuilding (w : Workorder) :
    Moves config (.process w) .watched .watched (setWorkorderStatus w.id .building) :=
  conforms_serve .build rfl fun r => moves_announceStatus w.id .building r rfl

theorem moves_cleanup (w : Workorder) (container : Option ContainerId)
    (hq : q = .failing ∨ q = .recorded) :
    Moves config (.process w) q .over (cleanupWorkorderRuntime w container) := by
  have hstrict : q.strict = false := by rcases hq with rfl | rfl <;> rfl
  refine conforms_serve (.forget hq) rfl fun _ => conforms_plain rfl rfl hstrict fun _ =>
    conforms_serve (.close hq) rfl fun _ => conforms_serve .closeRaw rfl fun _ =>
      conforms_serve .closeStdin rfl fun _ => conforms_plain rfl rfl rfl fun _ => ?_
  cases container with
  | none => exact conforms_plain rfl rfl rfl fun _ => moves_plain rfl rfl rfl
  | some container =>
    exact conforms_plain rfl rfl rfl fun _ => conforms_plain rfl rfl rfl fun _ =>
      moves_plain rfl rfl rfl

theorem moves_failBeforeWorker (w : Workorder) (reason : String) :
    Moves config (.process w) .watched .over (failBeforeWorker config w reason) :=
  moves_bind (moves_setTerminal w rfl (.inl rfl)) fun _ =>
    conforms_serve .tellEarly rfl fun _ => conforms_serve .recordFailure rfl fun _ =>
      conforms_plain rfl rfl rfl fun _ => conforms_plain rfl rfl rfl fun _ =>
        moves_cleanup w none (.inl rfl)

theorem moves_failIngest (w : Workorder) (container : ContainerId) (reason : String)
    (parity : ParityManifest) :
    Moves config (.process w) .relaying .over (failIngest config w container reason parity) :=
  moves_bind (moves_setTerminal w rfl (.inr rfl)) fun _ =>
    conforms_serve .record rfl fun _ => conforms_serve .tell rfl fun _ =>
      conforms_plain rfl rfl rfl fun _ => conforms_plain rfl rfl rfl fun _ =>
        moves_cleanup w (some container) (.inr rfl)

theorem moves_prepareImage (tag : String) (hq : q.strict = false) :
    Moves config k q q (prepareImage tag) := by
  refine conforms_plain rfl rfl hq fun r => ?_
  cases r with
  | false => rfl
  | true => exact moves_plain rfl rfl hq

theorem moves_waitForWorker (container : ContainerId) (hq : q.strict = false) :
    Moves config k q q (waitForWorker config container) := by
  refine conforms_plain rfl rfl hq fun r => ?_
  cases r with
  | timedOut => exact conforms_plain rfl rfl hq fun _ => rfl
  | _ => rfl

theorem moves_reportEvents (id : WorkorderId) (events : List WorkerEvent) (built : List String)
    (failed : List FailedPackage) (hq : q.strict = false) :
    Moves config k q q (reportEvents id events built failed) := by
  induction events generalizing built failed with
  | nil => rfl
  | cons e es ih => cases e <;> exact conforms_plain rfl rfl hq fun _ => ih _ _

theorem moves_reportResult (w : Workorder) (result : WorkorderResult) {counter : Counter}
    (hc : (counter == .queueDepth) = false) :
    Moves config (.process w) .ending .recorded (reportResult w result counter) :=
  conforms_serve .record rfl fun _ => conforms_serve .tell rfl fun _ =>
    moves_plain hc rfl rfl

theorem moves_finishWorkorder (w : Workorder) (waited : Except String ℤ) (built : List String)
    (failed : List FailedPackage) (distfiles : BTreeMap SnapshotEntry) (parity : ParityManifest) :
    Moves config (.process w) .relaying .recorded
      (finishWorkorder config w waited built failed distfiles parity) := by
  have hfailed : ∀ reason, Moves config (.process w) .relaying .recorded
      (finishFailed config w reason built failed distfiles parity) := fun reason =>
    moves_bind (moves_setTerminal w rfl (.inr rfl)) fun _ => moves_reportResult w _ rfl
  unfold finishWorkorder
  split
  · exact moves_bind (moves_setTerminal w rfl (.inr rfl)) fun _ =>
      conforms_plain rfl rfl rfl fun _ => moves_reportResult w _ rfl
  · exact hfailed _
  · exact hfailed _

theorem moves_superviseWorker (w : Workorder) (container : ContainerId) :
    Moves config (.process w) .watched .over (superviseWorker config w container) := by
  refine conforms_serve .attach rfl fun _ => conforms_serve .look rfl fun r => ?_
  cases r with
  | false => rfl
  | true =>
    refine conforms_serve .openStdin rfl fun _ =>
      moves_bind (moves_waitForWorker container rfl) fun waited =>
      conforms_serve .detach rfl fun _ => conforms_plain rfl rfl rfl fun events =>
        moves_bind (moves_reportEvents w.id events [] [] rfl) fun reported =>
          moves_bind (moves_onStore _ rfl) fun parity => ?_
    cases parity with
    | error e => exact moves_failIngest w container _ _
    | ok parity =>
      refine moves_bind (moves_onStore _ rfl) fun distfiles => ?_
      cases distfiles with
      | error e => exact moves_failIngest w container _ _
      | ok distfiles =>
        exact moves_bind (moves_finishWorkorder w waited _ _ _ _) fun _ =>
          conforms_plain rfl rfl rfl fun _ => moves_cleanup w (some container) (.inr rfl)

theorem moves_processWorkorder (w : Workorder) :
    Moves config (.process w) .fresh .over (processWorkorder config w) := by
  refine conforms_plain rfl rfl rfl fun _ => conforms_serve .watch rfl fun r => ?_
  cases r with
  | false => exact moves_plain rfl rfl rfl
  | true =>
    refine moves_bind (moves_prepareImage w.systemId rfl) fun image => ?_
    cases image with
    | error e => exact moves_failBeforeWorker w _
    | ok u =>
      refine conforms_plain rfl rfl rfl fun _ => moves_bind (moves_setBuilding w) fun _ =>
        moves_bind (moves_onStore _ rfl) fun staged => ?_
      cases staged with
      | error e => exact moves_failBeforeWorker w _
      | ok references =>
        refine conforms_plain rfl rfl rfl fun _ => conforms_plain rfl rfl rfl fun started => ?_
        cases started with
        | error e => exact moves_failBeforeWorker w _
        | ok container => exact moves_superviseWorker w container

theorem moves_recordSubmission (req : SubmitRequest) :
    Moves config (.submit req) .listed .over recordSubmission :=
  conforms_serve .listedAdd rfl fun _ => conforms_serve .enqueue rfl fun _ =>
    ⟨⟨.plain rfl rfl,fun _ e => nomatch e⟩,fun _ => ⟨⟨.plain rfl rfl,fun _ _ => rfl⟩,fun _ =>
      conforms_plain rfl rfl rfl fun _ => conforms_plain rfl rfl rfl fun _ =>
        moves_plain rfl rfl rfl⟩⟩

theorem conforms_atCapacity (req : SubmitRequest) (id : WorkorderId) :
    Conforms ((stages config).monitor (.submit req))
      (fun q full => q = ⟨if full then .over else .named id,false⟩) ⟨.named id,false⟩
      (atCapacity config) := by
  unfold atCapacity
  split
  · refine conforms_serve .count rfl fun n => ?_
    have hn : ∀ m : ℕ, stageNext config (.named id) .countActive m =
        if m < config.maxActiveWorkorders then .named id else .over := fun _ => rfl
    rw [hn]
    change Post.mk _ false = Post.mk _ false
    by_cases h : n < config.maxActiveWorkorders
    · have hd : decide (config.maxActiveWorkorders ≤ n) = false := by simpa using h
      simp [h,hd]
    · have hd : decide (config.maxActiveWorkorders ≤ n) := by simpa using h
      simp [h,hd]
  · rfl

theorem conforms_submitWorkorder (req : SubmitRequest) :
    Conforms ((stages config).monitor (.submit req))
      (fun q _ => (q.stage = .fresh ∨ q.stage = .over) ∧ q.holds = false) ⟨.fresh,false⟩
      (submitWorkorder config req) := by
  refine moves_bind (moves_onStore _ rfl) fun normalized => ?_
  cases normalized with
  | error e => exact ⟨.inl rfl,rfl⟩
  | ok normalized =>
    refine conforms_serve .newId rfl fun named => conforms_plain rfl rfl rfl fun _ =>
      conforms_bind (conforms_atCapacity req named.1) fun q full hq => ?_
    subst hq
    cases full with
    | true => exact conforms_plain rfl rfl rfl fun _ => ⟨.inr rfl,rfl⟩
    | false =>
      refine conforms_serve .update rfl fun r => ?_
      cases r with
      | error e => exact conforms_plain rfl rfl rfl fun _ => ⟨.inr rfl,rfl⟩
      | ok diff =>
        exact conforms_serve .makeRaw rfl fun _ => conforms_serve .makeProgress rfl fun _ =>
          conforms_serve (.list (w := newWorkorder req normalized named.1 named.2)) rfl fun _ =>
            conforms_serve .listedActive rfl fun _ => conforms_serve .listedUnlock rfl fun _ =>
              moves_bind (moves_recordSubmission req) fun _ => ⟨.inr rfl,rfl⟩

theorem moves_processQueue : Moves config .queue .fresh .over processQueue := by
  refine conforms_serve .find rfl fun found => ?_
  cases found with
  | none => rfl
  | some w =>
    refine conforms_serve .claim rfl fun claimed => ?_
    cases claimed with
    | false => rfl
    | true =>
      have hsend : Moves config .queue (.waiting w) (.waiting w)
          (sendIfWatched w.id (.statusChanged .pending .provisioning)) := by
        refine conforms_serve .waitingLook rfl fun r => ?_
        cases r with
        | false => rfl
        | true => exact moves_serve (.waitingSend rfl) rfl fun _ => rfl
      exact conforms_serve .dequeue rfl fun _ => moves_bind hsend fun _ =>
        conforms_serve .waitingPermit rfl fun _ => moves_serve .spawn rfl fun _ => rfl

theorem moves_stopCancelledWorker (id : WorkorderId) (old : WorkorderStatus)
    (hq : q.strict = false) : Moves config k q q (stopCancelledWorker id old) := by
  unfold stopCancelledWorker
  split
  · refine conforms_plain rfl rfl hq fun r => ?_
    cases r with
    | none => rfl
    | some container => exact conforms_plain rfl rfl hq fun _ => moves_plain rfl rfl hq
  · rfl

theorem moves_cancelWorkorder (id : WorkorderId) :
    Moves config (.cancel id) .fresh .over (cancelWorkorder id) := by
  refine conforms_serve .cancel rfl fun r => ?_
  cases r with
  | notFound => rfl
  | notCancellable => rfl
  | cancelled old client =>
    by_cases hp : old = .pending
    · subst hp
      have hsend : Moves config (.cancel id) .owes .owes
          (sendIfWatched id (.statusChanged .pending .cancelled)) := by
        refine conforms_serve .owesLook rfl fun r => ?_
        cases r with
        | false => rfl
        | true => exact moves_serve (.owesSend rfl) rfl fun _ => rfl
      exact moves_bind hsend fun _ => conforms_serve .owesClear rfl fun _ =>
        moves_bind (moves_serve .leave rfl fun _ => rfl) fun _ =>
          moves_bind (moves_stopCancelledWorker id _ rfl) fun _ => moves_plain rfl rfl rfl
    · have hstage : stageNext config .fresh (.cancel id) (.cancelled old client) = .over := by
        cases old <;> first | rfl | exact absurd rfl hp
      rw [hstage]
      have hsend : Moves config (.cancel id) .over .over
          (sendIfWatched id (.statusChanged old .cancelled)) := by
        refine conforms_serve .cancelLook rfl fun r => ?_
        cases r with
        | false => rfl
        | true => exact moves_plain rfl rfl rfl
      have hleave : Moves config (.cancel id) .over .over (leaveQueue old) := by
        unfold leaveQueue
        rw [if_neg hp]
        rfl
      exact moves_bind hsend fun _ => conforms_plain rfl rfl rfl fun _ =>
        moves_bind hleave fun _ => moves_bind (moves_stopCancelledWorker id _ rfl) fun _ =>
          moves_plain rfl rfl rfl

end

theorem stages_obeyed (env : Codecs) (config : ServerConfig) :
    Obeys (serverSystem env config) (stages config) := by
  intro k
  cases k with
  | submit request =>
    exact conforms_bind (conforms_submitWorkorder request) fun q _ h => ⟨⟨rfl,h.1⟩,h.2⟩
  | cancel id => exact moves_bind (moves_cancelWorkorder id) fun _ => ⟨⟨rfl,rfl⟩,rfl⟩
  | queue => exact moves_bind moves_processQueue fun _ => ⟨⟨rfl,rfl⟩,rfl⟩
  | process w =>
    exact moves_bind (moves_processWorkorder w) fun _ =>
      conforms_plain rfl rfl rfl fun _ => ⟨⟨rfl,rfl⟩,rfl⟩
  | evict =>
    refine conforms_serve .evict rfl fun r => ?_
    cases r with
    | none => exact ⟨⟨.inl rfl,rfl⟩,rfl⟩
    | some n => exact ⟨⟨.inr rfl,rfl⟩,rfl⟩
  | save =>
    exact conforms_plain rfl rfl rfl fun _ => conforms_plain rfl rfl rfl fun _ =>
      conforms_copy rfl (conforms_plain rfl rfl rfl fun _ => conforms_plain rfl rfl rfl fun _ =>
        ⟨⟨rfl,rfl⟩,rfl⟩)
  | upload digest bytes | cleanupAt active now =>
    exact moves_bind (moves_onStore _ rfl) fun _ => ⟨⟨rfl,rfl⟩,rfl⟩
  | cleanup =>
    exact conforms_plain rfl rfl rfl fun _ => conforms_plain rfl rfl rfl fun _ =>
      ⟨⟨⟨_,_,rfl⟩,rfl⟩,rfl⟩

end Remerge.ServiceStages
