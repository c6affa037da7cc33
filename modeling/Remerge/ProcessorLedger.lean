import Remerge.ChannelUpkeep

/-!
# The ledger of a processor

What a processor has taken and not given back: its worker slot, the container
it started, its staged references, what may be left in the tables under its
workorder, and its share of `builds_active`. Every path through
`processWorkorder` settles the ledger before the slot is released, unless the
task panicked.
-/

set_option autoImplicit false

namespace Remerge.ProcessorLedger
open StepProgram Interleaving SnapshotTypes SnapshotStore SnapshotRuntime SnapshotCleanup
open ServerState ServerOps ServerTasks ChannelUpkeep

/-- The containers a task has started and not removed, and how often it has
taken itself off `builds_active`. -/
structure Deeds where
  containers : List ContainerId
  drops : ℕ

def Deeds.nothing : Deeds := ⟨[],0⟩

def Deeds.after (d : Deeds) (o : ServerOp) (r : ServerRes o) : Deeds :=
  match o, r with
  | .startWorker _ _, .ok c => { d with containers := c::d.containers }
  | .removeContainer c, .ok _ => { d with containers := d.containers.erase c }
  | .sub .buildsActive, _ => { d with drops := d.drops+1 }
  | _, _ => d

structure Ledger where
  deeds : Deeds
  permit : Bool
  panicked : Bool
  stuck : Bool
  status : Option WorkorderStatus
  staged : Bool
  left : View

def Ledger.cleared (q : Ledger) : Prop :=
  q.staged = false ∧ (q.stuck ∨ q.deeds.containers = [])

def Ledger.settled (q : Ledger) : Prop :=
  q.cleared ∧ q.deeds.drops = 1 ∧ q.left.progress = false ∧ q.left.raw = false ∧
    q.left.stdin = false ∧ q.left.container = false ∧
    (q.status.any WorkorderStatus.terminal ∨ q.left.listed = false)

def permitNext (permit : Bool) : ServerOp → Bool
  | .acquirePermit => true
  | .releasePermit | .spawnProcess _ => false
  | _ => permit

def panickedNext (panicked : Bool) (o : ServerOp) (r : ServerRes o) : Bool :=
  match o, r with
  | .hasRaw _, false => true
  | _, _ => panicked

def stuckNext (stuck : Bool) (o : ServerOp) (r : ServerRes o) : Bool :=
  match o, r with
  | .removeContainer _, .error _ => true
  | _, _ => stuck

def statusNext (status : Option WorkorderStatus) : ServerOp → Option WorkorderStatus
  | .setStatus _ st => some st
  | _ => status

def stagedNext (staged : Bool) : ServerOp → Bool
  | .trackReferences _ _ => true
  | .clearReferences _ => false
  | _ => staged

/-- A workorder whose progress channel is gone has been evicted. -/
def leftNext (left : View) (o : ServerOp) (r : ServerRes o) : View :=
  match o, r with
  | .hasProgress _, false => .bare
  | o, _ => touch left o

def ledgerNext (q : Ledger) (o : ServerOp) (r : ServerRes o) : Ledger where
  deeds := q.deeds.after o r
  permit := permitNext q.permit o
  panicked := panickedNext q.panicked o r
  stuck := stuckNext q.stuck o r
  status := statusNext q.status o
  staged := stagedNext q.staged o
  left := leftNext q.left o r

def quiet : ServerOp → Bool
  | .startWorker _ _ | .removeContainer _ | .acquirePermit | .releasePermit | .spawnProcess _
  | .trackReferences _ _ | .clearReferences _ => false
  | .sub c => c != .buildsActive
  | _ => true

inductive Keeps : TaskKind → Ledger → ServerOp → Prop where
  | quiet {k : TaskKind} {q : Ledger} {o : ServerOp} (h : quiet o) : Keeps k q o
  | acquire {q : Ledger} (h : q.permit = false) : Keeps .queue q .acquirePermit
  | spawn {q : Ledger} {w : Workorder} (h : q.permit) (hc : q.deeds.containers = []) :
      Keeps .queue q (.spawnProcess w)
  | track {w : Workorder} {q : Ledger} {references : SnapshotReferenceSet}
      (h : q.status ≠ none) : Keeps (.process w) q (.trackReferences w.id references)
  | clear {w : Workorder} {q : Ledger} : Keeps (.process w) q (.clearReferences w.id)
  | start {w : Workorder} {q : Ledger} {id : WorkorderId} {tag : String} (hp : q.permit)
      (hc : q.deeds.containers = []) : Keeps (.process w) q (.startWorker id tag)
  | remove {w : Workorder} {q : Ledger} {c : ContainerId} :
      Keeps (.process w) q (.removeContainer c)
  | drop {w : Workorder} {q : Ledger} : Keeps (.process w) q (.sub .buildsActive)
  | release {w : Workorder} {q : Ledger} (hp : q.permit)
      (h : q.panicked ∨ q.settled) : Keeps (.process w) q .releasePermit

def ledgerInit (k : TaskKind) : Ledger where
  deeds := .nothing
  permit := match k with
    | .process _ => true
    | _ => false
  panicked := false
  stuck := false
  status := none
  staged := false
  left := ⟨true,true,true,true,true⟩

/-- A task ends without its slot and, unless it panicked, with nothing staged. -/
def ledger : Discipline TaskKind ServerOp ServerRes Ledger where
  monitor := fun k => ⟨Keeps k,ledgerNext⟩
  init := ledgerInit
  final := fun _ q _ => q.permit = false ∧ (q.panicked ∨ q.cleared)

section
variable {config : ServerConfig} {k : TaskKind} {q : Ledger} {o : ServerOp} {α β : Type}

theorem containers_quiet (h : quiet o) (d : Deeds) (r : ServerRes o) : d.after o r = d := by
  cases o with
  | sub c => cases c <;> first | rfl | cases h
  | _ => first | rfl | cases h

theorem permit_quiet (h : quiet o) (b : Bool) : permitNext b o = b := by
  cases o <;> first | rfl | cases h

theorem staged_quiet (h : quiet o) (b : Bool) : stagedNext b o = b := by
  cases o <;> first | rfl | cases h

structure Ledger.Same (q q' : Ledger) : Prop where
  deeds : q'.deeds = q.deeds
  permit : q'.permit = q.permit
  staged : q'.staged = q.staged

theorem same_quiet (h : quiet o) (r : ServerRes o) : q.Same (ledgerNext q o r) :=
  ⟨containers_quiet h _ _,permit_quiet h _,staged_quiet h _⟩

abbrev Goes (k : TaskKind) (q : Ledger) (post : Ledger → Prop) (p : ServerProg α) : Prop :=
  Conforms (ledger.monitor k) (fun r _ => post r) q p

def Quiet (p : ServerProg α) : Prop := ∀ k q, Goes k q q.Same p

theorem Ledger.Same.trans {a b c : Ledger} (h : a.Same b) (h' : b.Same c) : a.Same c :=
  ⟨h'.deeds.trans h.deeds,h'.permit.trans h.permit,h'.staged.trans h.staged⟩

theorem quiet_ret (a : α) : Quiet (pure a : ServerProg α) := fun _ _ => ⟨rfl,rfl,rfl⟩

theorem quiet_bind {p : ServerProg α} {f : α → ServerProg β} (hp : Quiet p)
    (hf : ∀ a, Quiet (f a)) : Quiet (p >>= f) := fun k q =>
  conforms_bind (hp k q) fun q' a h => conforms_mono (hf a k q') fun _ _ h' => h.trans h'

theorem quiet_op (h : quiet o) : Quiet (op o) := fun _ _ =>
  ⟨.quiet h,fun r => same_quiet h r⟩

def Idle (p : ServerProg α) : Prop := ∀ k q, Goes k q (· = q) p

theorem idle_bind {p : ServerProg α} {f : α → ServerProg β} (hp : Idle p)
    {final : Ledger → β → Prop} (hf : ∀ a, Conforms (ledger.monitor k) final q (f a)) :
    Conforms (ledger.monitor k) final q (p >>= f) :=
  conforms_bind (hp k q) fun _ a h => h ▸ hf a

theorem idle_op (h : quiet o) (same : ∀ q r, ledgerNext q o r = q) : Idle (op o) :=
  fun _ _ => ⟨.quiet h,fun r => same _ r⟩

theorem idle_ret (a : α) : Idle (pure a : ServerProg α) := fun _ _ => rfl

theorem Idle.quiet {p : ServerProg α} (h : Idle p) : Quiet p := fun k q =>
  conforms_mono (h k q) fun _ _ e => e ▸ ⟨rfl,rfl,rfl⟩

theorem idle_onStore (p : StoreProg α) : Idle (onStore p) := by
  unfold onStore
  induction outcome p with
  | ret a => exact idle_ret a
  | step o next ih =>
    exact fun k q => idle_bind (idle_op (o := .store o) rfl fun _ _ => rfl) fun r => ih r k q

theorem idle_prepareImage (tag : String) : Idle (prepareImage tag) := by
  refine fun k q => idle_bind (idle_op rfl fun _ _ => rfl) fun r => ?_
  cases r with
  | false => rfl
  | true => exact idle_op (o := .buildWorkerImage tag) rfl (fun _ _ => rfl) k q

theorem idle_waitForWorker (c : ContainerId) : Idle (waitForWorker config c) := by
  refine fun k q => idle_bind (idle_op rfl fun _ _ => rfl) fun r => ?_
  cases r with
  | timedOut => exact idle_bind (idle_op rfl fun _ _ => rfl) fun _ => rfl
  | _ => rfl

theorem idle_reportEvents (id : WorkorderId) (events : List WorkerEvent) (built : List String)
    (failed : List FailedPackage) : Idle (reportEvents id events built failed) := by
  induction events generalizing built failed with
  | nil => exact idle_ret _
  | cons e es ih =>
    cases e <;> exact fun k q => idle_bind (idle_op rfl fun _ _ => rfl) fun _ => ih _ _ k q

theorem goes_setWorkorderStatus (id : WorkorderId) (st : WorkorderStatus) :
    Goes k q (· = { q with status := some st }) (setWorkorderStatus id st) := by
  refine ⟨.quiet rfl,fun old => ?_⟩
  cases old with
  | none => rfl
  | some old =>
    exact idle_bind (idle_op rfl fun _ _ => rfl) fun _ =>
      idle_bind (idle_op rfl fun _ _ => rfl) fun _ =>
        idle_op (o := .saveWorkorders _) rfl (fun _ _ => rfl) k _

def Ledger.done (q : Ledger) : Prop := q.permit ∧ (q.panicked ∨ q.settled)

variable {w : Workorder} {container : Option ContainerId}

theorem goes_op {final : Ledger → β → Prop} {f : ServerRes o → ServerProg β} (x : Ledger)
    (h : Keeps k q o) (hn : ∀ r, ledgerNext q o r = x)
    (hf : ∀ r, Conforms (ledger.monitor k) final x (f r)) :
    Conforms (ledger.monitor k) final q (op o >>= f) :=
  ⟨h,fun r => by
    change Conforms _ _ (ledgerNext q o r) _
    rw [hn r]
    exact hf r⟩

theorem goes_drop {f : Unit → ServerProg β} {final : Ledger → β → Prop}
    (hf : Conforms (ledger.monitor (.process w)) final
      { q with deeds := ⟨q.deeds.containers,q.deeds.drops+1⟩ } (f ())) :
    Conforms (ledger.monitor (.process w)) final q (op (.sub .buildsActive) >>= f) :=
  goes_op _ .drop (fun _ => rfl) fun _ => hf

theorem done_cleanup (hp : q.permit) (he : q.status.any WorkorderStatus.terminal)
    (hs : q.staged = false) (hl : q.left = ⟨false,false,false,false,true⟩)
    (hd : q.deeds = ⟨container.toList,1⟩) :
    Goes (.process w) q Ledger.done (do
      match container with
      | some container => do
        let _ ← op (.removeContainer container)
      | none => pure ()
      let _ ← op (.store (.removeRuntimeDir w.id))
      op .spawnCleanup) := by
  have rest : ∀ x : Ledger, x.permit → x.status = q.status → x.left = q.left →
      x.deeds.drops = 1 → x.cleared → Goes (.process w) x Ledger.done (do
        let _ ← op (.store (.removeRuntimeDir w.id))
        op .spawnCleanup) := by
    intro x hx1 hx2 hx3 hx4 hx5
    have hx : x.done := ⟨hx1,.inr ⟨hx5,hx4,by simp [hx3,hl,hx2,he]⟩⟩
    exact idle_bind (idle_op rfl fun _ _ => rfl) fun _ =>
      conforms_mono (idle_op (o := .spawnCleanup) rfl (fun _ _ => rfl) _ x) fun _ _ e => e ▸ hx
  have drops : q.deeds.drops = 1 := by rw [hd]
  cases container with
  | none => exact rest q hp rfl rfl drops ⟨hs,.inr (by rw [hd]; rfl)⟩
  | some c =>
    refine ⟨.remove,fun removed => ?_⟩
    cases removed with
    | error e => exact rest _ hp rfl rfl drops ⟨hs,.inl rfl⟩
    | ok u =>
      refine rest _ hp rfl rfl drops ⟨hs,.inr ?_⟩
      change q.deeds.containers.erase c = []
      simp [hd]

theorem goes_cleanup (hp : q.permit) (hd : q.deeds = ⟨container.toList,1⟩)
    (he : q.status.any WorkorderStatus.terminal) (hl : q.left.listed) :
    Goes (.process w) q Ledger.done (cleanupWorkorderRuntime w container) :=
  goes_op { q with left := { q.left with container := false } } (.quiet rfl) (fun _ => rfl) fun _ =>
  goes_op { q with staged := false, left := { q.left with container := false } } .clear
    (fun _ => rfl) fun _ =>
  goes_op { q with staged := false, left := { q.left with container := false, progress := false } }
    (.quiet rfl) (fun _ => rfl) fun _ =>
  goes_op { q with staged := false, left := ⟨false,false,q.left.stdin,false,q.left.listed⟩ }
    (.quiet rfl) (fun _ => rfl) fun _ =>
  goes_op { q with staged := false, left := ⟨false,false,false,false,q.left.listed⟩ }
    (.quiet rfl) (fun _ => rfl) fun _ =>
  idle_bind (idle_op rfl fun _ _ => rfl) fun _ => done_cleanup hp he rfl (by rw [hl]) hd

theorem goes_failBeforeWorker (reason : String) (hp : q.permit) (hd : q.deeds = .nothing)
    (hl : q.left.listed) :
    Goes (.process w) q Ledger.done (failBeforeWorker config w reason) := by
  refine conforms_bind (goes_setWorkorderStatus w.id (.failed reason)) fun _ _ h => ?_
  subst h
  exact idle_bind (idle_op rfl fun _ _ => rfl) fun _ => idle_bind (idle_op rfl fun _ _ => rfl)
    fun _ => goes_drop (idle_bind (idle_op rfl fun _ _ => rfl) fun _ =>
      goes_cleanup hp (by simp [hd,Deeds.nothing]) rfl hl)

theorem goes_failIngest {c : ContainerId} (reason : String) (parity : ParityManifest)
    (hp : q.permit) (hd : q.deeds = ⟨[c],0⟩) (hl : q.left.listed) :
    Goes (.process w) q Ledger.done (failIngest config w c reason parity) := by
  refine conforms_bind (goes_setWorkorderStatus w.id (.failed reason)) fun _ _ h => ?_
  subst h
  exact idle_bind (idle_op rfl fun _ _ => rfl) fun _ => idle_bind (idle_op rfl fun _ _ => rfl)
    fun _ => goes_drop (idle_bind (idle_op rfl fun _ _ => rfl) fun _ =>
      goes_cleanup hp (by simp [hd]) rfl hl)

theorem goes_finishWorkorder (waited : Except String ℤ) (built : List String)
    (failed : List FailedPackage) (distfiles : BTreeMap SnapshotEntry) (parity : ParityManifest) :
    Goes k q (fun x => ∃ st, st.terminal ∧ x = { q with status := some st })
      (finishWorkorder config w waited built failed distfiles parity) := by
  have hresult : ∀ result {counter : Counter}, Idle (reportResult w result counter) :=
    fun _ _ k q => idle_bind (idle_op rfl fun _ _ => rfl) fun _ =>
      idle_bind (idle_op rfl fun _ _ => rfl) fun _ => idle_op (o := .add _) rfl (fun _ _ => rfl) k q
  have hfailed : ∀ reason,
      Goes k q (fun x => ∃ st, st.terminal ∧ x = { q with status := some st })
        (finishFailed config w reason built failed distfiles parity) := by
    intro reason
    refine conforms_bind (goes_setWorkorderStatus w.id (.failed reason)) fun _ _ h => ?_
    subst h
    exact conforms_mono (hresult _ k _) fun _ _ e => ⟨.failed reason,rfl,e⟩
  unfold finishWorkorder
  split
  · refine conforms_bind (goes_setWorkorderStatus w.id .completed) fun _ _ h => ?_
    subst h
    exact idle_bind (idle_op rfl fun _ _ => rfl) fun _ =>
      conforms_mono (hresult _ k _) fun _ _ e => ⟨.completed,rfl,e⟩
  · exact hfailed _
  · exact hfailed _

theorem goes_superviseWorker (c : ContainerId) (hp : q.permit) (hd : q.deeds = ⟨[c],0⟩)
    (hl : q.left.listed) :
    Goes (.process w) q Ledger.done (superviseWorker config w c) := by
  refine goes_op { q with left := { q.left with container := true } } (.quiet rfl) (fun _ => rfl)
    fun _ => ⟨.quiet rfl,fun present => ?_⟩
  cases present with
  | false => exact ⟨hp,.inl rfl⟩
  | true =>
    refine goes_op { q with left := { q.left with container := true, stdin := true } }
      (.quiet rfl) (fun _ => rfl) fun _ => idle_bind (idle_waitForWorker c) fun waited =>
      goes_op { q with left := { q.left with container := true, stdin := true, raw := false } }
        (.quiet rfl) (fun _ => rfl) fun _ => idle_bind (idle_op rfl fun _ _ => rfl) fun events =>
        idle_bind (idle_reportEvents w.id events [] []) fun reported =>
          idle_bind (idle_onStore _) fun parity => ?_
    cases parity with
    | error e => exact goes_failIngest _ _ hp hd hl
    | ok parity =>
      refine idle_bind (idle_onStore _) fun distfiles => ?_
      cases distfiles with
      | error e => exact goes_failIngest _ _ hp hd hl
      | ok distfiles =>
        refine conforms_bind (goes_finishWorkorder waited _ _ _ _) fun x _ h => ?_
        obtain ⟨st,ht,rfl⟩ := h
        exact goes_drop (goes_cleanup hp (by simp [hd]) ht hl)

theorem goes_processWorkorder :
    Goes (.process w) (ledgerInit (.process w)) Ledger.done (processWorkorder config w) := by
  refine idle_bind (idle_op rfl fun _ _ => rfl) fun _ => ⟨.quiet rfl,fun present => ?_⟩
  cases present with
  | false => exact ⟨.drop,fun _ =>
    ⟨rfl,.inr ⟨⟨rfl,.inr rfl⟩,rfl,rfl,rfl,rfl,rfl,.inr rfl⟩⟩⟩
  | true =>
    refine idle_bind (idle_prepareImage w.systemId) fun image => ?_
    cases image with
    | error e => exact goes_failBeforeWorker _ rfl rfl rfl
    | ok u =>
      refine idle_bind (idle_op rfl fun _ _ => rfl) fun _ =>
        conforms_bind (goes_setWorkorderStatus w.id .building) fun x _ h => ?_
      subst h
      refine idle_bind (idle_onStore _) fun staged => ?_
      cases staged with
      | error e => exact goes_failBeforeWorker _ rfl rfl rfl
      | ok references =>
        refine ⟨.track nofun,fun _ => ⟨.start rfl rfl,fun started => ?_⟩⟩
        cases started with
        | error e => exact goes_failBeforeWorker _ rfl rfl rfl
        | ok c => exact goes_superviseWorker c rfl rfl rfl

theorem quiet_submitWorkorder (request : SubmitRequest) :
    Quiet (submitWorkorder config request) := by
  refine quiet_bind (idle_onStore _).quiet fun normalized => ?_
  cases normalized with
  | error e => exact quiet_ret _
  | ok normalized =>
    refine quiet_bind (quiet_op rfl) fun named => quiet_bind (quiet_op rfl) fun _ => ?_
    have full : Quiet (atCapacity config) := by
      unfold atCapacity
      split
      · exact quiet_bind (quiet_op rfl) fun _ => quiet_ret _
      · exact quiet_ret _
    refine quiet_bind full fun full => ?_
    cases full with
    | true => exact quiet_bind (quiet_op rfl) fun _ => quiet_ret _
    | false =>
      refine quiet_bind (quiet_op rfl) fun updated => ?_
      cases updated with
      | error e => exact quiet_bind (quiet_op rfl) fun _ => quiet_ret _
      | ok diff =>
        refine quiet_bind (quiet_op rfl) fun _ => quiet_bind (quiet_op rfl) fun _ =>
          quiet_bind (quiet_op rfl) fun _ => quiet_bind (quiet_op rfl) fun _ =>
          quiet_bind (quiet_op rfl) fun _ => quiet_bind ?_ fun _ => quiet_ret _
        exact quiet_bind (quiet_op rfl) fun _ => quiet_bind (quiet_op rfl) fun _ =>
          quiet_bind (quiet_op rfl) fun _ => quiet_bind (quiet_op rfl) fun _ =>
          quiet_bind (quiet_op rfl) fun _ => quiet_bind (quiet_op rfl) fun _ => quiet_op rfl

theorem quiet_sendIfWatched (id : WorkorderId) (event : BuildEvent) :
    Quiet (sendIfWatched id event) := by
  refine quiet_bind (quiet_op rfl) fun present => ?_
  cases present with
  | true => exact quiet_op rfl
  | false => exact quiet_ret _

theorem quiet_cancelWorkorder (id : WorkorderId) : Quiet (cancelWorkorder id) := by
  refine quiet_bind (quiet_op rfl) fun cancelled => ?_
  cases cancelled with
  | cancelled old client =>
    have left : Quiet (leaveQueue old) := by
      unfold leaveQueue
      split
      · exact quiet_op rfl
      · exact quiet_ret _
    have stopped : Quiet (stopCancelledWorker id old) := by
      unfold stopCancelledWorker
      split
      · refine quiet_bind (quiet_op rfl) fun container => ?_
        cases container with
        | some c => exact quiet_bind (quiet_op rfl) fun _ => quiet_op rfl
        | none => exact quiet_ret _
      · exact quiet_ret _
    exact quiet_bind (quiet_sendIfWatched _ _) fun _ => quiet_bind (quiet_op rfl) fun _ =>
      quiet_bind left fun _ => quiet_bind stopped fun _ => quiet_op rfl
  | _ => exact quiet_ret _

def Ledger.empty (q : Ledger) : Prop :=
  q.permit = false ∧ q.deeds = .nothing ∧ q.staged = false

theorem Ledger.empty.same {x : Ledger} (h : q.empty) (hs : q.Same x) : x.empty :=
  ⟨hs.permit.trans h.1,hs.deeds.trans h.2.1,hs.staged.trans h.2.2⟩

theorem empty_then {f : ServerRes o → ServerProg β} {final : Ledger → β → Prop} (h : q.empty)
    (ho : quiet o) (hf : ∀ r x, x.empty → Conforms (ledger.monitor k) final x (f r)) :
    Conforms (ledger.monitor k) final q (op o >>= f) :=
  ⟨.quiet ho,fun r => hf r _ (h.same (same_quiet ho r))⟩

theorem goes_processQueue (h : q.empty) : Goes .queue q Ledger.empty processQueue := by
  refine empty_then h rfl fun found x1 h1 => ?_
  cases found with
  | none => exact h1
  | some v =>
    refine empty_then h1 rfl fun claimed x2 h2 => ?_
    cases claimed with
    | false => exact h2
    | true =>
      refine empty_then h2 rfl fun _ x3 h3 =>
        conforms_bind (quiet_sendIfWatched _ _ .queue x3) fun x4 _ hs => ?_
      have h4 := h3.same hs
      exact ⟨.acquire h4.1,fun _ =>
        ⟨.spawn rfl (congrArg Deeds.containers h4.2.1),fun _ => ⟨rfl,h4.2⟩⟩⟩

theorem Ledger.empty.final (h : q.empty) (a : Option TaskKind) : ledger.final k q a :=
  ⟨h.1,.inr ⟨h.2.2,.inr (congrArg Deeds.containers h.2.1)⟩⟩

theorem empty_of_quiet {p : ServerProg α} (hp : Quiet p) (h : q.empty)
    (f : α → Option TaskKind) :
    Conforms (ledger.monitor k) (ledger.final k) q (p >>= fun a => pure (f a)) :=
  conforms_bind (hp k q) fun _ _ hs => (h.same hs).final _

end

theorem ledger_obeyed (env : Codecs) (config : ServerConfig) :
    Obeys (serverSystem env config) ledger := by
  intro k
  cases k with
  | submit request => exact empty_of_quiet (quiet_submitWorkorder request) ⟨rfl,rfl,rfl⟩ _
  | cancel id => exact empty_of_quiet (quiet_cancelWorkorder id) ⟨rfl,rfl,rfl⟩ _
  | queue =>
    exact conforms_bind (goes_processQueue ⟨rfl,rfl,rfl⟩) fun _ _ h => h.final _
  | process w =>
    refine conforms_bind goes_processWorkorder fun x _ h => ⟨.release h.1 h.2,fun _ => ⟨rfl,?_⟩⟩
    exact h.2.imp_right fun h => h.1
  | evict =>
    refine ⟨.quiet rfl,fun r => ?_⟩
    cases r <;> exact ⟨rfl,.inr ⟨rfl,.inr rfl⟩⟩
  | save =>
    have saved : Quiet runPeriodicSave :=
      quiet_bind (quiet_op rfl) fun _ => quiet_bind (quiet_op rfl) fun _ =>
      quiet_bind (quiet_op rfl) fun _ => quiet_bind (quiet_op rfl) fun _ =>
      quiet_bind (quiet_op rfl) fun _ => quiet_op rfl
    exact empty_of_quiet saved ⟨rfl,rfl,rfl⟩ _
  | upload digest bytes | cleanupAt active now =>
    exact empty_of_quiet (idle_onStore _).quiet ⟨rfl,rfl,rfl⟩ _
  | cleanup =>
    exact empty_then (q := ledgerInit .cleanup) ⟨rfl,rfl,rfl⟩ rfl fun _ _ h =>
      empty_then h rfl fun _ _ h => h.final _

end Remerge.ProcessorLedger
