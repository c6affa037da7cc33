import Remerge.ChannelUpkeep
import Remerge.ServerLifetimes
import Remerge.TaskCensus

/-!
# The queue depth counter

The counter is raised after a submit has listed its workorder and lowered
after a claim or a cancel has taken a pending one. A server that loads pending
workorders starts with a counter of zero, and a workorder that is taken before
its submit has counted it lets the counter wrap. Without these, the counter
follows the map: what is missing is owed by tasks that are between the two.
-/

set_option autoImplicit false

namespace Remerge.QueueDepth
open StepProgram Interleaving SnapshotTypes SnapshotStore SnapshotRuntime SnapshotCleanup
open ServerState ServerOps ServerTasks ServerPhases ServerCore ServerLifetimes StatusLifecycle
open ServiceStages ChannelUpkeep TaskCensus

variable {s s' : Server} {env : Codecs} {config : ServerConfig} {g g' : Services}
  {l : ServerLabel} {k : TaskKind} {q : Phase × Post} {o : ServerOp} {r : ServerRes o}

def isPending (w : Workorder) : Bool := w.status == .pending

def pendingCount (s : Server) : ℕ := s.workorders.count isPending

def queueDepth (s : Server) : ℕ := s.counters .queueDepth

def FewSubmits (s : Server) (kinds : ℕ → Option TaskKind) : Prop :=
  ∃ F : Finset ℕ, (∀ i req, kinds i = some (.submit req) → i ∈ F) ∧ F.card < pendingCount s

/-- A pending workorder is claimed or cancelled only while fewer submits are
running than workorders are pending, and the counter is not at its maximum
when it is raised. -/
def takesCounted : ServerCondition := fun s kinds l => match l with
  | .act _ _ (.claim id) _ => s.statusOf id = some .pending → FewSubmits s kinds
  | .act _ _ (.cancel id) _ => s.statusOf id = some .pending → FewSubmits s kinds
  | .act _ _ (.add .queueDepth) _ => queueDepth s < 2^64-1
  | _ => True

def Settled (P : ServerPool) : Prop := ∀ i t, P.tasks i = some t →
  ¬Bound (.add .queueDepth) t.prog ∧ ¬Bound (.sub .queueDepth) t.prog

theorem share_pending (s : Server) (id : WorkorderId) :
    s.workorders.share isPending id = if s.statusOf id = some .pending then 1 else 0 := by
  unfold AList.share Server.statusOf isPending
  cases s.workorders.lookup id with
  | none => rfl
  | some w => by_cases h : w.status = .pending <;> simp [h]

theorem pendingCount_same
    (h : ∀ id, s'.statusOf id = some .pending ↔ s.statusOf id = some .pending) :
    pendingCount s' = pendingCount s := by
  refine AList.count_congr fun id => ?_
  rw [share_pending,share_pending]
  simp only [h id]

theorem pendingCount_taken {id : WorkorderId} (hp : s.statusOf id = some .pending)
    (hn : s'.statusOf id ≠ some .pending)
    (others : ∀ a, a ≠ id → s'.statusOf a = s.statusOf a) :
    pendingCount s'+1 = pendingCount s := by
  have h : s'.workorders.count isPending+s.workorders.share isPending id =
      s.workorders.count isPending+s'.workorders.share isPending id :=
    AList.count_change id fun a ha => by rw [share_pending,share_pending,others a ha]
  rw [share_pending,share_pending,if_pos hp,if_neg hn] at h
  exact h

def Stage.adds : Stage → Bool
  | .listed => true
  | _ => false

def Stage.subs : Stage → Bool
  | .took _ | .owes => true
  | _ => false

/-- What one operation does to the counter, the pending workorders and what its
task owes. -/
inductive Shift (s s' : Server) (st st' : Stage) : ServerOp → Prop where
  | quiet {o : ServerOp} (hd : queueDepth s' = queueDepth s)
      (hp : pendingCount s' = pendingCount s) (ha : Stage.adds st' = Stage.adds st)
      (hs : Stage.subs st' = Stage.subs st) : Shift s s' st st' o
  | list {o : ServerOp} (hd : queueDepth s' = queueDepth s)
      (hp : pendingCount s' = pendingCount s+1) (ha : Stage.adds st = false)
      (ha' : Stage.adds st') (hs : Stage.subs st = false) (hs' : Stage.subs st' = false) :
      Shift s s' st st' o
  | enqueue (hd : queueDepth s' = wrappingSucc (queueDepth s))
      (hp : pendingCount s' = pendingCount s) (ha : Stage.adds st)
      (ha' : Stage.adds st' = false) (hs : Stage.subs st = false) (hs' : Stage.subs st' = false) :
      Shift s s' st st' (.add .queueDepth)
  | take {o : ServerOp} {id : WorkorderId} (ho : o = .claim id ∨ o = .cancel id)
      (hid : s.statusOf id = some .pending) (hd : queueDepth s' = queueDepth s)
      (hp : pendingCount s'+1 = pendingCount s) (ha : Stage.adds st = false)
      (ha' : Stage.adds st' = false) (hs : Stage.subs st = false) (hs' : Stage.subs st') :
      Shift s s' st st' o
  | dequeue (hd : queueDepth s' = wrappingPred (queueDepth s))
      (hp : pendingCount s' = pendingCount s) (ha : Stage.adds st = false)
      (ha' : Stage.adds st' = false) (hs : Stage.subs st) (hs' : Stage.subs st' = false) :
      Shift s s' st st' (.sub .queueDepth)

section
variable {i : ℕ} {w : ServerOracle}

theorem queueDepth_of_sem (ha : o ≠ .add .queueDepth) (hb : o ≠ .sub .queueDepth)
    (hs : serverSem env config o w s = some (s',r)) : queueDepth s' = queueDepth s := by
  rw [effect_of_sem env config hs]
  cases o with
  | add c => exact Function.update_of_ne (fun e => ha (congrArg ServerOp.add e.symm)) _ _
  | sub c => exact Function.update_of_ne (fun e => hb (congrArg ServerOp.sub e.symm)) _ _
  | evict =>
    simp only [effect]
    split <;> rfl
  | _ => rfl

def takes : ServerOp → Bool
  | .insertWorkorder _ | .claim _ | .cancel _ => true
  | _ => false

variable {id : WorkorderId}

theorem written_not_pending {st : Stage} {x : WorkorderStatus} (h : Serves k st (.setStatus id x)) :
    x ≠ .pending := by
  rintro rfl
  cases h with
  | plain hn _ => cases hn
  | fail hterm => cases hterm
  | finish hterm => cases hterm

theorem pendingCount_of_sem (hU : Upkeep s g) (ht : g i = some (k,q))
    (ha : ((service config).monitor k).allows q o)
    (hs : serverSem env config o w s = some (s',r)) (ho : takes o = false) :
    pendingCount s' = pendingCount s := by
  refine pendingCount_same fun id => ?_
  have hst := statusStep_of_core (coreStep_of_sem ha.1 hs) id
  change StatusStep id o (s.statusOf id) (s'.statusOf id) at hst
  generalize hx : s.statusOf id = x at hst
  generalize s'.statusOf id = x' at hst
  cases hst with
  | same => rfl
  | insert _ => cases ho
  | claim => cases ho
  | cancel _ => cases ho
  | write =>
    rename_i st st'
    have hserves := ha.2.1
    have before := hU.subject_not_pending ht (setStatus_subject hserves)
    rw [hx] at before
    simpa [written_not_pending hserves] using before
  | evict hterm =>
    rename_i st
    have hne : st ≠ .pending := by
      rintro rfl
      cases hterm
    simp [hne]

theorem others_kept (ha : ((service config).monitor k).allows q o)
    (hs : serverSem env config o w s = some (s',r))
    (ho : o = .claim id ∨ o = .cancel id ∨ ∃ v, o = .insertWorkorder v ∧ v.id = id)
    (a : WorkorderId) (hne : a ≠ id) : s'.statusOf a = s.statusOf a := by
  have hst := statusStep_of_core (coreStep_of_sem ha.1 hs) a
  change StatusStep a o (s.statusOf a) (s'.statusOf a) at hst
  generalize s.statusOf a = x at hst ⊢
  generalize s'.statusOf a = x' at hst ⊢
  cases hst <;> simp_all

theorem cancel_result {r : CancelOutcome}
    (hs : serverSem env config (.cancel id) w s = some (s',r)) :
    (s.statusOf id = some .pending ∧ (∃ c, r = .cancelled .pending c) ∧
        s'.statusOf id = some .cancelled) ∨
      (s.statusOf id ≠ some .pending ∧ ∀ c, r ≠ .cancelled .pending c) := by
  cases of_exclusive hs
  unfold Server.statusOf cancelStatus
  cases hl : s.workorders.lookup id with
  | none => right; simp
  | some v =>
    by_cases hp : v.status = .pending
    · left
      simp [hp,WorkorderStatus.active]
    · right
      by_cases hactive : v.status.active = true <;> simp [hactive,hp]

theorem pendingCount_missed {r : CancelOutcome}
    (ha : ((service config).monitor k).allows q (.cancel id))
    (hs : serverSem env config (.cancel id) w s = some (s',r))
    (hp : s.statusOf id ≠ some .pending) :
    pendingCount s' = pendingCount s := by
  refine pendingCount_same fun a => ?_
  have hst := statusStep_of_core (coreStep_of_sem ha.1 hs) a
  change StatusStep a (.cancel id) (s.statusOf a) (s'.statusOf a) at hst
  generalize hx : s.statusOf a = x at hst
  generalize s'.statusOf a = x' at hst
  cases hst with
  | same => rfl
  | cancel _ => simpa [← hx] using hp

theorem queueDepth_add {r : ServerRes (.add .queueDepth)}
    (hs : serverSem env config (.add .queueDepth) w s = some (s',r)) :
    queueDepth s' = wrappingSucc (queueDepth s) := by
  cases hs
  simp [queueDepth]

theorem queueDepth_sub {r : ServerRes (.sub .queueDepth)}
    (hs : serverSem env config (.sub .queueDepth) w s = some (s',r)) :
    queueDepth s' = wrappingPred (queueDepth s) := by
  have h : s'.counters =
      Function.update s.counters .queueDepth (wrappingPred (s.counters .queueDepth)) :=
    (congrArg (fun x => x.1.counters) (Option.some.inj hs)).symm
  rw [queueDepth,h,Function.update_self,queueDepth]

theorem stageNext_cancel {st : Stage} {r : CancelOutcome} (h : ∀ c, r ≠ .cancelled .pending c) :
    stageNext config st (.cancel id) r = .over := by
  cases r with
  | cancelled old c => cases old <;> first | rfl | exact absurd rfl (h c)
  | _ => rfl

theorem shift_of_sem (hU : Upkeep s g) (ht : g i = some (k,q))
    (ha : ((service config).monitor k).allows q o)
    (hs : serverSem env config o w s = some (s',r)) :
    Shift s s' q.2.stage (stageNext config q.2.stage o r) o := by
  have others : ∀ id, (o = .claim id ∨ o = .cancel id ∨ ∃ v, o = .insertWorkorder v ∧ v.id = id) →
      ∀ a, a ≠ id → s'.statusOf a = s.statusOf a := fun id ho => others_kept ha hs ho
  have hserves := ha.2.1
  have hsub : ∀ id, subject (k,q.2.stage) = some id → s.statusOf id ≠ some .pending :=
    fun id => hU.subject_not_pending ht
  have quiet : ∀ st st' : Stage, o ≠ .add .queueDepth → o ≠ .sub .queueDepth → takes o = false →
      Stage.adds st' = Stage.adds st → Stage.subs st' = Stage.subs st → Shift s s' st st' o :=
    fun st st' h h' ho => .quiet (queueDepth_of_sem h h' hs) (pendingCount_of_sem hU ht ha hs ho)
  have depth : o ≠ .add .queueDepth → o ≠ .sub .queueDepth → queueDepth s' = queueDepth s :=
    fun h h' => queueDepth_of_sem h h' hs
  have pending : takes o = false → pendingCount s' = pendingCount s := pendingCount_of_sem hU ht ha hs
  generalize q.2.stage = st at hserves hsub
  cases hserves with
  | plain hn _ =>
    rw [stageNext_plain st o r hn]
    refine quiet st st ?_ ?_ ?_ rfl rfl
    · rintro rfl
      cases hn
    · rintro rfl
      cases hn
    · cases o <;> first | rfl | cases hn
  | list =>
    rename_i req v
    refine .list (depth nofun nofun) ?_ rfl rfl rfl rfl
    exact (pendingCount_taken (pending_of_insert ha.1 hs) (hsub v.id rfl)
      fun a hne => (others v.id (.inr (.inr ⟨v,rfl,rfl⟩)) a hne).symm).symm
  | enqueue => exact .enqueue (queueDepth_add hs) (pending rfl) rfl rfl rfl rfl
  | claim =>
    rename_i v
    cases r with
    | true =>
      have hp := pending_of_claim hs
      refine .take (.inl rfl) hp (depth nofun nofun) ?_ rfl rfl rfl rfl
      exact pendingCount_taken hp (by rw [status_of_claim hs]; exact nofun) (others v.id (.inl rfl))
    | false =>
      obtain rfl := unclaimed hs rfl
      exact .quiet rfl rfl rfl rfl
  | dequeue | leave => exact .dequeue (queueDepth_sub hs) (pending rfl) rfl rfl rfl rfl
  | cancel =>
    rename_i id
    rcases cancel_result hs with ⟨hp,⟨c,rfl⟩,after⟩ | ⟨hp,hr⟩
    · refine .take (.inr rfl) hp (depth nofun nofun) ?_ rfl rfl rfl rfl
      exact pendingCount_taken hp (by rw [after]; exact nofun) (others id (.inr (.inl rfl)))
    · rw [stageNext_cancel hr]
      exact .quiet (depth nofun nofun) (pendingCount_missed ha hs hp) rfl rfl
  | count =>
    by_cases hn : r < config.maxActiveWorkorders
    · have he : ∀ v, stageNext config (.named v) .countActive r = .named v := fun v => if_pos hn
      rw [he]
      exact quiet _ _ nofun nofun rfl rfl rfl
    · have he : ∀ v, stageNext config (.named v) .countActive r = .over := fun v => if_neg hn
      rw [he]
      exact quiet _ _ nofun nofun rfl rfl rfl
  | forget hq | close hq => rcases hq with rfl | rfl <;> exact quiet _ _ nofun nofun rfl rfl rfl
  | fail hterm | finish hterm =>
    rw [stageNext_terminal _ _ hterm]
    exact quiet _ _ nofun nofun rfl rfl rfl
  | listedAdd => exact quiet _ _ (by simp) nofun rfl rfl rfl
  | update | find | watch | look =>
    cases r <;> exact quiet _ _ nofun nofun rfl rfl rfl
  | _ => exact quiet _ _ nofun nofun rfl rfl rfl

end

def addsTask (t : TaskKind × (Phase × Post)) : Bool := Stage.adds t.2.2.stage

def subsTask (t : TaskKind × (Phase × Post)) : Bool := Stage.subs t.2.2.stage

/-- What the counter lacks is owed by submits, what it has too much by those
who have taken a workorder, and no submit owes for a workorder that was taken. -/
structure Balanced (s : Server) (g : Services) : Prop where
  upkeep : Upkeep s g
  submits : ∀ i t, g i = some t → addsTask t → ∃ req, t.1 = .submit req
  account : ∃ a b, Census g addsTask a ∧ Census g subsTask b ∧
    queueDepth s+a = pendingCount s+b ∧ a ≤ pendingCount s
  bounded : queueDepth s < 2^64

section
variable {n : ℕ} {st : Stage}

theorem wrappingSucc_of_lt (h : n < 2^64-1) : wrappingSucc n = n+1 :=
  Nat.mod_eq_of_lt (by omega)

theorem wrappingPred_of_pos (h : 0 < n) (hn : n < 2^64) : wrappingPred n = n-1 := by
  unfold wrappingPred
  omega

theorem weight_adds (k : TaskKind) (q : Phase × Post) :
    weight addsTask (some (k,q)) = if Stage.adds q.2.stage then 1 else 0 := rfl

theorem weight_subs (k : TaskKind) (q : Phase × Post) :
    weight subsTask (some (k,q)) = if Stage.subs q.2.stage then 1 else 0 := rfl

theorem settled_final {k' : Option TaskKind} (h : stageFinal k st k') :
    Stage.adds st = false ∧ Stage.subs st = false := by
  cases k with
  | submit req => rcases h.2 with rfl | rfl <;> exact ⟨rfl,rfl⟩
  | _ =>
    cases h.2
    exact ⟨rfl,rfl⟩

theorem adds_next (h : Serves k st o) (hr : Stage.adds (stageNext config st o r)) :
    Stage.adds st ∨ ∃ req, k = .submit req := by
  cases h with
  | plain hn _ =>
    rw [stageNext_plain st o r hn] at hr
    exact .inl hr
  | fail ht | finish ht =>
    rw [stageNext_terminal _ _ ht] at hr
    cases hr
  | forget hq | close hq => rcases hq with rfl | rfl <;> cases hr
  | cancel => cases r with
    | cancelled old c => cases old <;> cases hr
    | _ => cases hr
  | _ => first | exact .inr ⟨_,rfl⟩ | cases hr | (cases r <;> cases hr)

theorem submits_step (hB : Balanced s g) (h : ServiceStep env config s g l s' g') :
    ∀ i t, g' i = some t → addsTask t → ∃ req, t.1 = .submit req := by
  refine tasks_kept service_turns (fun _ t => addsTask t → ∃ req, t.1 = .submit req) h hB.submits
    (fun k _ e => nomatch e) ?_
  intro i k q o r w ht allowed hs _
  refine ⟨fun hadds => ?_,?_,fun a t _ hg => hB.submits a t hg⟩
  · rcases adds_next allowed.2.1 hadds with e | e
    · exact hB.submits i (k,q) ht e
    · exact e
  · intro v _ e
    cases e

theorem account_act {i : ℕ} (hB : Balanced s g)
    (h : ServiceStep env config s g (.act i k o r) s' g')
    (hc : takesCounted s g.kinds (.act i k o r)) :
    (∃ a b, Census g' addsTask a ∧ Census g' subsTask b ∧
      queueDepth s'+a = pendingCount s'+b ∧ a ≤ pendingCount s') ∧ queueDepth s' < 2^64 := by
  obtain ⟨q,w,ht,allowed,hs,-,-⟩ := service_acted h
  obtain ⟨a,b,ha,hb,e,hle⟩ := hB.account
  have bounded := hB.bounded
  obtain ⟨a',ha',ea⟩ := census_act h (fun _ => rfl) ha ht
  obtain ⟨b',hb',eb⟩ := census_act h (fun _ => rfl) hb ht
  rw [weight_adds,weight_adds] at ea
  rw [weight_subs,weight_subs] at eb
  have owed : Stage.subs q.2.stage → 0 < b := fun hq =>
    census_pos hb (i := i) (by rw [ht]; exact hq)
  have hshift := shift_of_sem hB.upkeep ht allowed hs
  change a'+(if Stage.adds q.2.stage then 1 else 0) =
    a+(if Stage.adds (stageNext config q.2.stage o r) then 1 else 0) at ea
  change b'+(if Stage.subs q.2.stage then 1 else 0) =
    b+(if Stage.subs (stageNext config q.2.stage o r) then 1 else 0) at eb
  generalize q.2.stage = st at hshift ea eb owed
  generalize stageNext config st o r = st' at hshift ea eb
  have counted : queueDepth s'+a' = pendingCount s'+b' ∧ a' ≤ pendingCount s' ∧
      queueDepth s' < 2^64 := by
    cases hshift with
    | quiet hd hp hA hS =>
      rw [hA] at ea
      rw [hS] at eb
      omega
    | list hd hp hA hA' hS hS' =>
      simp only [hA,hA',hS,hS',if_true,Bool.false_eq_true,if_false] at ea eb
      omega
    | enqueue hd hp hA hA' hS hS' =>
      simp only [hA,hA',hS,hS',if_true,Bool.false_eq_true,if_false] at ea eb
      have room : queueDepth s < 2^64-1 := hc
      rw [wrappingSucc_of_lt room] at hd
      omega
    | take ho hid hd hp hA hA' hS hS' =>
      simp only [hA,hA',hS,hS',if_true,Bool.false_eq_true,if_false] at ea eb
      obtain ⟨F,hF,few⟩ : FewSubmits s g.kinds := by rcases ho with rfl | rfl <;> exact hc hid
      have uncounted : a ≤ F.card := census_le ha F fun i hi => by
        obtain ⟨t,hg,hadds⟩ := (Option.any_eq_true _ _).mp hi
        obtain ⟨req,hk⟩ := hB.submits i t hg hadds
        exact hF i req (by rw [Ghost.kinds,hg]; exact congrArg some hk)
      omega
    | dequeue hd hp hA hA' hS hS' =>
      simp only [hA,hA',hS,hS',if_true,Bool.false_eq_true,if_false] at ea eb
      have taken := owed hS
      rw [wrappingPred_of_pos (by omega) bounded] at hd
      omega
  exact ⟨⟨a',b',ha',hb',counted.1,counted.2.1⟩,counted.2.2⟩

theorem balanced_step (hB : Balanced s g) (h : ServiceStep env config s g l s' g')
    (hc : takesCounted s g.kinds l) : Balanced s' g' := by
  have upkeep := upkeep_step hB.upkeep h
  have submits := submits_step hB h
  have turn : (∀ i k o r, l ≠ .act i k o r) → ∃ a b, Census g' addsTask a ∧ Census g' subsTask b ∧
      queueDepth s+a = pendingCount s+b ∧ a ≤ pendingCount s := by
    intro quiet
    obtain ⟨a,b,ha,hb,e⟩ := hB.account
    exact ⟨a,b,census_turn h quiet (fun _ => rfl) (fun _ _ _ hf => (settled_final hf.2.1).1) ha,
      census_turn h quiet (fun _ => rfl) (fun _ _ _ hf => (settled_final hf.2.1).2) hb,e⟩
  cases h with
  | start hk free | next ht ends => exact ⟨upkeep,submits,turn (by simp),hB.bounded⟩
  | act ht allowed hs free =>
    obtain ⟨account,bounded⟩ := account_act hB (.act ht allowed hs free) hc
    exact ⟨upkeep,submits,account,bounded⟩

end

variable {P P1 : ServerPool} {ls : List ServerLabel}

theorem balanced_start (start : Started env config P) (idle : pendingCount P.shared = 0) :
    Balanced P.shared (startServices config) := by
  have fresh : ∀ i t, startServices config i = some t → t.2.2.stage = .fresh := by
    intro i t ht
    obtain ⟨he,-⟩ := startServices_task (k := t.1) (q := t.2) ht
    rw [show t = _ from he]
    rfl
  have none : ∀ p : TaskKind × (Phase × Post) → Bool, (∀ t, t.2.2.stage = .fresh → p t = false) →
      ∀ i, (startServices config i).any p = false := by
    intro p hp i
    cases ht : startServices config i with
    | none => rfl
    | some t => exact hp t (fresh i t ht)
  have zero : queueDepth P.shared = 0 := by
    obtain ⟨now,store,disk,issued,-⟩ := start
    rfl
  refine ⟨upkeep_start start,fun i t ht e => ?_,⟨0,0,census_none (none _ ?_),
    census_none (none _ ?_),by omega,by omega⟩,by omega⟩
  · rw [addsTask,fresh i t ht] at e
    cases e
  · exact fun t ht => by rw [addsTask,ht]; rfl
  · exact fun t ht => by rw [subsTask,ht]; rfl

variable {p : ServerProg (Option TaskKind)}

theorem bound_of_adds (hc : Conforms ((service config).monitor k) ((service config).final k) q p)
    (h : Stage.adds q.2.stage) : Bound (.add .queueDepth) p := by
  have hq : q.2.stage = .listed := by
    generalize q.2.stage = st at h
    cases st <;> first | rfl | cases h
  refine bound_of_stage ?_ ?_ hc hq
  · intro k' hf
    cases (settled_final hf).1
  · intro o hserves
    cases hserves with
    | plain _ hn => cases hn
    | enqueue => exact .inl rfl
    | forget hn | close hn => rcases hn with e | e <;> cases e
    | _ => exact .inr fun _ => rfl

theorem bound_of_subs (hc : Conforms ((service config).monitor k) ((service config).final k) q p)
    (h : Stage.subs q.2.stage) : Bound (.sub .queueDepth) p := by
  refine bound_of_stage ?_ ?_ hc rfl
  · intro k' hf
    rw [(settled_final hf).2] at h
    cases h
  · intro o hserves
    generalize q.2.stage = st at h hserves
    cases hserves with
    | plain _ hn => cases st with
      | took _ | owes => cases hn
      | _ => cases h
    | dequeue | leave => exact .inl rfl
    | owesLook | owesSend _ | owesClear => exact .inr fun _ => rfl
    | forget hn | close hn => rcases hn with rfl | rfl <;> cases h
    | _ => cases h

/-- The counter is positive whenever it is lowered, and it is the number of
pending workorders whenever no task is between the map and the counter. -/
theorem queue_depth_exact (start : Started env config P) (idle : pendingCount P.shared = 0)
    (run : Run (serverSystem env config) takesCounted P ls P1) :
    (∀ i k r P2, Step (serverSystem env config) P1 (.act i k (.sub .queueDepth) r) P2 →
        0 < queueDepth P1.shared) ∧
      (Settled P1 → queueDepth P1.shared = pendingCount P1.shared) := by
  obtain ⟨g,tracks,hB⟩ := services_run Balanced (fun _ _ _ _ _ h hs hc => balanced_step h hs hc)
    start (balanced_start start idle) run
  obtain ⟨a,b,ha,hb,e,hle⟩ := hB.account
  refine ⟨fun i k r P2 step => ?_,fun settled => ?_⟩
  · obtain ⟨q,w,hg,allowed,-⟩ := tracks.acting step
    have owes : Stage.subs q.2.stage := by
      have hserves := allowed.2.1
      generalize q.2.stage = st at hserves
      cases hserves with
      | plain hn _ => cases hn
      | dequeue | leave => rfl
    have hpos : 0 < b := census_pos hb (i := i) (by rw [hg]; exact owes)
    omega
  · have none : ∀ p : TaskKind × (Phase × Post) → Bool,
        (∀ i k q prog, P1.tasks i = some ⟨k,prog⟩ →
          Conforms ((service config).monitor k) ((service config).final k) q prog →
          p (k,q) = false) → ∀ i, (g i).any p = false := by
      intro p hp i
      cases hg : g i with
      | none => rfl
      | some t =>
        obtain ⟨prog,ht,hc⟩ := tracks.find hg
        exact hp i t.1 t.2 prog ht hc
    have zero : a = 0 := census_eq_zero ha (none _ fun i k q prog ht hc =>
      Bool.eq_false_iff.mpr fun h => (settled i _ ht).1 (bound_of_adds hc h))
    have zero' : b = 0 := census_eq_zero hb (none _ fun i k q prog ht hc =>
      Bool.eq_false_iff.mpr fun h => (settled i _ ht).2 (bound_of_subs hc h))
    omega

def isDepthOp : ServerOp → Bool
  | .add .queueDepth | .sub .queueDepth => true
  | _ => false

def settledCheck (env : Codecs) (config : ServerConfig) (P : ServerPool) : Bool :=
  (List.range 10).all fun i => (P.tasks i).all fun t =>
    escapes (serverSem env config) {} isDepthOp t.prog P.shared

theorem settled_of_check (hn : ∀ i, 10 ≤ i → P.tasks i = none)
    (h : settledCheck env config P) : Settled P := by
  intro i t ht
  have hi : i < 10 := by
    by_contra hi
    rw [hn i (by omega)] at ht
    cases ht
  have hc := List.all_eq_true.mp h i (List.mem_range.mpr hi)
  rw [ht,Option.all_some] at hc
  exact ⟨not_bound_of_escapes rfl hc,not_bound_of_escapes rfl hc⟩

def isSubmit : TaskKind → Bool
  | .submit _ => true
  | _ => false

def takesCountedCheck (s : Server) (kinds : ℕ → Option TaskKind) (l : ServerLabel) : Bool :=
  match l with
  | .act _ _ (.claim _) _ | .act _ _ (.cancel _) _ =>
    ((List.range 10).all fun i => !(kinds i).any isSubmit) && decide (0 < pendingCount s)
  | .act _ _ (.add .queueDepth) _ => decide (queueDepth s < 2^64-1)
  | _ => true

theorem fewSubmits_of_check {kinds : ℕ → Option TaskKind}
    (hn : ∀ i, 10 ≤ i → kinds i = none)
    (h : (((List.range 10).all fun i => !(kinds i).any isSubmit) &&
      decide (0 < pendingCount s))) : FewSubmits s kinds := by
  rw [Bool.and_eq_true,decide_eq_true_eq] at h
  refine ⟨∅,fun i req hk => ?_,h.2⟩
  by_cases hi : i < 10
  · have hc := List.all_eq_true.mp h.1 i (List.mem_range.mpr hi)
    rw [hk] at hc
    cases hc
  · rw [hn i (by omega)] at hk
    cases hk

theorem takesCounted_of_check (s : Server) (kinds : ℕ → Option TaskKind) (l : ServerLabel)
    (hn : ∀ i, 10 ≤ i → kinds i = none) (h : takesCountedCheck s kinds l) :
    takesCounted s kinds l := by
  unfold takesCountedCheck at h
  unfold takesCounted
  split
  · exact fun _ => fewSubmits_of_check hn h
  · exact fun _ => fewSubmits_of_check hn h
  · exact of_decide_eq_true h
  · trivial

/-- Two workorders are submitted and one of them is claimed. -/
theorem queue_depth_exact_claimed :
    ∃ ls P1, Run (serverSystem plainCodecs .default) takesCounted
        (freshPool plainCodecs .default) ls P1 ∧ Settled P1 ∧
      pendingCount P1.shared = 1 ∧ queueDepth P1.shared = pendingCount P1.shared := by
  obtain ⟨ls,P1,run,hn,h⟩ := exists_run_below (serverSystem plainCodecs .default)
    takesCounted_of_check (submitMoves 3 "c1" "w1" ++ submitMoves 4 "c2" "w2" ++ acts 7 0 5 "w1")
    (freshPool plainCodecs .default) (by decide) (fun i hi => freshPool_none hi)
    (fun P => pendingCount P.shared == 1 && settledCheck plainCodecs .default P)
    (by decide)
  rw [Bool.and_eq_true,beq_iff_eq] at h
  have settled := settled_of_check hn h.2
  exact ⟨ls,P1,run,settled,h.1,
    (queue_depth_exact (started_fresh plainCodecs .default) rfl run).2 settled⟩

def queuedDisk : Persisted :=
  ⟨some ((∅ : Table WorkorderId Workorder).insert "w1"
    (newWorkorder (sampleRequest "c1") .default "w1" 0)),none,none⟩

theorem wellFiled_queuedDisk : WellFiled queuedDisk ["w1"] := by
  intro id v h
  change ((∅ : Table WorkorderId Workorder).insert _ _).lookup id = some v at h
  rw [AList.lookup_insert_ite] at h
  split at h
  · next e =>
    cases h
    exact ⟨e.symm,by simp [e]⟩
  · cases h

def queuedPool : ServerPool :=
  startPool plainCodecs .default (boot .default 0 ∅ queuedDisk ["w1"])

theorem queuedPool_none {i : ℕ} (h : 10 ≤ i) : queuedPool.tasks i = none := by
  obtain ⟨n,rfl⟩ := Nat.exists_eq_add_of_le' h
  rfl

def lowersDepth : ServerLabel → Bool
  | .act _ _ (.sub .queueDepth) _ => true
  | _ => false

theorem act_of_lowersDepth (h : lowersDepth l) : ∃ i k r, l = .act i k (.sub .queueDepth) r := by
  unfold lowersDepth at h
  split at h
  · exact ⟨_,_,_,rfl⟩
  · cases h

/-- The reloaded workorder is claimed and the counter wraps; and in a server
without any history a claim overtakes the submit's increment. -/
theorem queue_depth_wraps :
    (∃ P ls P1, Started plainCodecs .default P ∧
        Run (serverSystem plainCodecs .default) unrestricted P ls P1 ∧ Settled P1 ∧
        pendingCount P1.shared = 0 ∧ queueDepth P1.shared = 2^64-1) ∧
      ∃ ls P1 i k r P2, Run (serverSystem plainCodecs .default) unrestricted
          (freshPool plainCodecs .default) ls P1 ∧
        Step (serverSystem plainCodecs .default) P1 (.act i k (.sub .queueDepth) r) P2 ∧
        queueDepth P1.shared = 0 := by
  constructor
  · obtain ⟨ls,P1,run,hn,h⟩ := exists_run_below (serverSystem plainCodecs .default)
      (fun s kinds l _ => anyStep_unrestricted s kinds l) (acts 7 0 4 "w1") queuedPool
      (by decide) (fun i hi => queuedPool_none hi)
      (fun P => pendingCount P.shared == 0 && (queueDepth P.shared == 2^64-1 &&
        settledCheck plainCodecs .default P)) (by decide)
    simp only [Bool.and_eq_true,beq_iff_eq] at h
    exact ⟨queuedPool,ls,P1,.intro 0 ∅ queuedDisk ["w1"] wellFiled_queuedDisk,run,
      settled_of_check hn h.2.2,h.1,h.2.1⟩
  · obtain ⟨ls,P1,l,P2,run,step,-,h⟩ := exists_step_of_play
      (serverSystem plainCodecs .default)
      (fun s kinds l _ => anyStep_unrestricted s kinds l)
      ([.start 3 (.submit (sampleRequest "c1"))] ++ acts 9 3 9 "w1" ++ acts 2 0 9 "w1")
      (.act 0 9 {}) (freshPool plainCodecs .default) (by decide)
      (fun i hi => freshPool_none hi) (fun P l => lowersDepth l && queueDepth P.shared == 0)
      (by decide)
    rw [Bool.and_eq_true,beq_iff_eq] at h
    obtain ⟨i,k,r,rfl⟩ := act_of_lowersDepth h.1
    exact ⟨ls,P1,i,k,r,P2,run,step,h.2⟩

end Remerge.QueueDepth
