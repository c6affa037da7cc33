import Remerge.ChannelUpkeep
import Remerge.ServerLifetimes

/-!
# Ended workorders release their watchers

The channels of a workorder are removed by the cleanup of its processor. A
workorder that ends before any processor exists, because it is cancelled while
it is still pending, keeps them. In all runs without such a cancel, a
workorder that has ended and that nobody processes has no channel left.
-/

set_option autoImplicit false

namespace Remerge.WatcherRelease
open StepProgram Interleaving SnapshotTypes SnapshotStore SnapshotRuntime SnapshotCleanup
open ServerState ServerOps ServerTasks ServerPhases ServerCore ServerLifetimes StatusLifecycle
open ServiceStages ChannelUpkeep

variable {env : Codecs} {config : ServerConfig} {id : WorkorderId} {q : Phase × Post}

def cancelsNoPending : ServerCondition := fun s _ l => match l with
  | .act _ _ (.cancel id) _ => s.statusOf id ≠ some .pending
  | _ => True

/-- A processor of the workorder is running, or bound to be spawned once the
queue loop gets a worker slot. -/
def Attended (P : ServerPool) (id : WorkorderId) : Prop :=
  ∃ i k p w, P.tasks i = some ⟨k,p⟩ ∧ w.id = id ∧ (k = .process w ∨ Bound (.spawnProcess w) p)

def Shut (v : View) : Prop := v.progress = false ∧ v.raw = false ∧ v.stdin = false

structure Released (s : Server) (g : Services) : Prop where
  upkeep : Upkeep s g
  shut : ∀ id, (view s id).listed → s.statusOf id ≠ some .pending →
    (∃ i t, g i = some t ∧ subject (t.1,t.2.2.stage) = some id) ∨ Shut (view s id)

section
variable {s s' : Server} {g g' : Services} {l : ServerLabel} {k : TaskKind} {o : ServerOp}
  {r : ServerRes o} {w : ServerOracle}

theorem subject_left {st : Stage}
    (hf : Fit (view s id) (k,st)) (ha : Serves k st o)
    (hs : serverSem env config o w s = some (s',r)) (h : subject (k,st) = some id)
    (hn : subject (k,stageNext config st o r) ≠ some id) :
    (∃ v, o = .insertWorkorder v ∧ v.id = id) ∨ (∃ v, o = .spawnProcess v ∧ v.id = id) ∨
      Shut (view s' id) := by
  cases ha with
  | plain hp _ =>
    rw [stageNext_plain st o r hp] at hn
    exact absurd h hn
  | count | update =>
    have hv : Fit (view s' id) (.submit _,.named _) := fit_frame hs nofun hf
    right; right
    rw [show view s' id = .bare from hv]
    exact ⟨rfl,rfl,rfl⟩
  | list => exact .inl ⟨_,rfl,Option.some.inj h⟩
  | spawn => exact .inr (.inl ⟨_,rfl,Option.some.inj h⟩)
  | watch =>
    cases r with
    | true => exact absurd h hn
    | false =>
      cases h
      have hp : (view s _).progress = false := congrArg Prod.snd (Option.some.inj hs)
      obtain rfl : s = s' := congrArg Prod.fst (Option.some.inj hs)
      right; right
      rcases hf with hv | hv
      · rw [hv] at hp
        cases hp
      · rw [hv]
        exact ⟨rfl,rfl,rfl⟩
  | look =>
    cases r with
    | true => exact absurd h hn
    | false =>
      cases h
      have hr : (view s _).raw = false := congrArg Prod.snd (Option.some.inj hs)
      obtain rfl : s = s' := congrArg Prod.fst (Option.some.inj hs)
      obtain ⟨hprogress,hraw,hstdin⟩ := hf
      exact .inr (.inr ⟨hprogress.trans (hraw.symm.trans hr),hr,hstdin⟩)
  | closeStdin =>
    cases h
    right; right
    rw [view_touched hs rfl]
    exact ⟨hf.1,hf.2,rfl⟩
  | fail ht | finish ht =>
    rw [stageNext_terminal _ _ ht] at hn
    exact absurd h hn
  | forget hq | close hq => rcases hq with rfl | rfl <;> exact absurd h hn
  | _ => first | exact absurd h hn | cases h

theorem subject_final {k' : Option TaskKind} {st : Stage} (h : stageFinal k st k') :
    subject (k,st) = none := by
  cases k with
  | submit req => rcases h.2 with rfl | rfl <;> rfl
  | queue | process v =>
    cases h.2
    rfl
  | _ => rfl

section
variable {i : ℕ}

theorem released_own (hR : Released s g) (h : ServiceStep env config s g (.act i k o r) s' g')
    (ht : g i = some (k,q)) (hsub : subject (k,q.2.stage) = some id)
    (hp : s'.statusOf id ≠ some .pending) :
    (∃ i t, g' i = some t ∧ subject (t.1,t.2.2.stage) = some id) ∨ Shut (view s' id) := by
  obtain ⟨q0,w,ht0,allowed,hs,⟨q',hi,hq'⟩,spawned⟩ := service_acted h
  obtain rfl : q0 = q := congrArg Prod.snd (Option.some.inj (ht0.symm.trans ht))
  by_cases hkeep : subject (k,stageNext config q0.2.stage o r) = some id
  · exact .inl ⟨i,_,hi,hq' ▸ hkeep⟩
  · rcases subject_left (hR.upkeep.fit i k _ id ht hsub) allowed.2.1 hs hsub hkeep with
      ⟨v,rfl,rfl⟩ | ⟨v,rfl,rfl⟩ | hshut
    · exact absurd (pending_of_insert allowed.1 hs) hp
    · obtain ⟨j,qj,hj,hfresh⟩ := spawned v rfl
      exact .inl ⟨j,_,hj,by rw [hfresh]; rfl⟩
    · exact .inr hshut

theorem released_other (hR : Released s g) (h : ServiceStep env config s g (.act i k o r) s' g')
    (ht : g i = some (k,q)) (hsub : subject (k,q.2.stage) ≠ some id)
    (hl : (view s id).listed) (hp : s.statusOf id ≠ some .pending) :
    (∃ i t, g' i = some t ∧ subject (t.1,t.2.2.stage) = some id) ∨ Shut (view s' id) := by
  obtain ⟨q0,w,ht0,allowed,hs,-,-⟩ := service_acted h
  obtain rfl : q0 = q := congrArg Prod.snd (Option.some.inj (ht0.symm.trans ht))
  rcases hR.shut id hl hp with ⟨a,t,ha,hsub'⟩ | hshut
  · have hne : a ≠ i := by
      rintro rfl
      rw [ht] at ha
      cases ha
      exact hsub hsub'
    exact .inl ⟨a,t,h.kept ha (by simp [Ne.symm hne]) (by simp),hsub'⟩
  · right
    rcases view_frame hs fun e => hsub (touched_subject allowed.2.1 e) with e | ⟨-,e,-⟩
    · rwa [e]
    · rw [e]
      exact ⟨rfl,rfl,rfl⟩

theorem released_act (hR : Released s g) (h : ServiceStep env config s g (.act i k o r) s' g')
    (hc : cancelsNoPending s g.kinds (.act i k o r)) (hl : (view s' id).listed)
    (hp : s'.statusOf id ≠ some .pending) :
    (∃ i t, g' i = some t ∧ subject (t.1,t.2.2.stage) = some id) ∨ Shut (view s' id) := by
  obtain ⟨q,w,ht,allowed,hs,⟨q',hi,hq'⟩,-⟩ := service_acted h
  by_cases hsub : subject (k,q.2.stage) = some id
  · exact released_own hR h ht hsub hp
  · have other := released_other hR h ht hsub
    obtain ⟨st',hst'⟩ := status_of_listed hl
    have hst := statusStep_of_core (coreStep_of_sem allowed.1 hs) id
    change StatusStep id o (s.statusOf id) (s'.statusOf id) at hst
    generalize hx : s.statusOf id = x at hst
    generalize hx' : s'.statusOf id = x' at hst
    cases hst with
    | same => exact other (listed_of_status (hx.trans (hx'.symm.trans hst'))) (hx ▸ hx' ▸ hp)
    | insert _ => exact absurd hx' hp
    | claim =>
      have hserves := allowed.2.1
      generalize q.2.stage = stage at hserves hq'
      cases hserves with
      | plain hn _ => cases hn
      | claim =>
        cases r with
        | true => exact .inl ⟨i,_,hi,by rw [hq']; rfl⟩
        | false =>
          rw [unclaimed hs rfl,hx] at hx'
          cases hx'
    | cancel _ => exact other (listed_of_status hx) hc
    | write => exact absurd (setStatus_subject allowed.2.1) hsub
    | evict _ =>
      rw [hx'] at hst'
      cases hst'

end

theorem released_step (hR : Released s g) (h : ServiceStep env config s g l s' g')
    (hc : cancelsNoPending s g.kinds l) : Released s' g' := by
  have kept : ∀ a t, g a = some t → (∀ k o r, l ≠ .act a k o r) → (∀ k k', l ≠ .next a k k') →
      g' a = some t := fun a t ha => h.kept ha
  refine ⟨upkeep_step hR.upkeep h,fun id hl hp => ?_⟩
  cases h with
  | start hk free =>
    rcases hR.shut id hl hp with ⟨a,t,ha,hsub⟩ | hshut
    · exact .inl ⟨a,t,kept a t ha (by simp) (by simp),hsub⟩
    · exact .inr hshut
  | next ht ends =>
    rename_i i k q k'
    rcases hR.shut id hl hp with ⟨a,t,ha,hsub⟩ | hshut
    · have hne : i ≠ a := by
        rintro rfl
        rw [ht] at ha
        cases ha
        rw [subject_final ends.2.1] at hsub
        cases hsub
      exact .inl ⟨a,t,kept a t ha (by simp) (by simp [hne]),hsub⟩
    · exact .inr hshut
  | act ht allowed hs free => exact released_act hR (.act ht allowed hs free) hc hl hp

end

variable {P P1 : ServerPool} {ls : List ServerLabel}

theorem released_start (start : Started env config P) :
    Released P.shared (startServices config) := by
  refine ⟨upkeep_start start,fun id hl hp => .inr ?_⟩
  obtain ⟨now,store,disk,issued,-⟩ := start
  change Shut (view (boot _ _ _ _ _) id)
  obtain ⟨v,hv⟩ := Option.isSome_iff_exists.mp hl
  change (loadWorkorders now disk).lookup id = some v at hv
  have ended : v.isActive = false := by
    obtain ⟨u,-,rfl⟩ := lookup_loadWorkorders hv
    obtain ⟨-,-,h1,h2⟩ := resetInFlight_fields now u
    have h3 : (resetInFlight now u).status ≠ .pending := by
      intro e
      refine hp ?_
      change ((loadWorkorders now disk).lookup id).map _ = _
      rw [hv,Option.map_some,e]
    unfold Workorder.isActive
    generalize (resetInFlight now u).status = st at h1 h2 h3
    cases st <;> first | rfl | contradiction
  rw [view_boot,hv]
  exact ⟨ended,ended,rfl⟩

variable {v : Workorder} {p : ServerProg (Option TaskKind)}

theorem bound_of_waiting
    (hc : Conforms ((service config).monitor .queue) ((service config).final .queue) q p)
    (hq : q.2.stage = .waiting v) : Bound (.spawnProcess v) p := by
  refine bound_of_stage ?_ ?_ hc hq
  · rintro k' ⟨-,e⟩
    cases e
  · intro o h
    cases h with
    | plain _ hn => cases hn
    | spawn => exact .inl rfl
    | _ => exact .inr fun _ => rfl

theorem bound_of_claimed
    (hc : Conforms ((service config).monitor .queue) ((service config).final .queue) q p)
    (hq : q.2.stage = .took v ∨ q.2.stage = .waiting v) : Bound (.spawnProcess v) p := by
  rcases hq with hq | hq
  · cases p with
    | ret a => exact absurd (hq.symm.trans hc.2.1.2) nofun
    | step o next =>
      have hserves : Serves .queue q.2.stage o := hc.1.2.1
      refine .inr fun r => bound_of_waiting (hc.2 r) ?_
      change stageNext config q.2.stage o r = _
      rw [hq] at hserves ⊢
      cases hserves with
      | plain _ hn => cases hn
      | dequeue => rfl
  · exact bound_of_waiting hc hq

theorem unlisted_of_submit {v : View} {req : SubmitRequest} {st : Stage}
    (hf : Fit v (.submit req,st)) (h : subject (.submit req,st) = some id) : v.listed = false := by
  cases st with
  | named _ | admitted _ | raw _ | made _ =>
    cases hf
    rfl
  | _ => cases h

theorem attended_of_subject {g : Services} (tracks : Tracks (service config) P g)
    (hU : Upkeep P.shared g) {i : ℕ} {t : TaskKind × (Phase × Post)} (ht : g i = some t)
    (hsub : subject (t.1,t.2.2.stage) = some id) (hl : (view P.shared id).listed) :
    Attended P id := by
  obtain ⟨k,q⟩ := t
  obtain ⟨p,hp,hc⟩ := tracks.find ht
  cases k with
  | submit req =>
    rw [unlisted_of_submit (hU.fit i _ q id ht hsub) hsub] at hl
    cases hl
  | queue =>
    have bound : ∀ v, q.2.stage = .took v ∨ q.2.stage = .waiting v → v.id = id → Attended P id :=
      fun v hq hv => ⟨i,_,p,v,hp,hv,.inr (bound_of_claimed hc hq)⟩
    dsimp only at hsub
    generalize q.2.stage = st at hsub bound
    cases st with
    | took v => exact bound v (.inl rfl) (Option.some.inj hsub)
    | waiting v => exact bound v (.inr rfl) (Option.some.inj hsub)
    | _ => cases hsub
  | process v =>
    have hv : v.id = id := by
      dsimp only at hsub
      generalize q.2.stage = st at hsub
      cases st <;> first | exact Option.some.inj hsub | cases hsub
    exact ⟨i,_,p,v,hp,hv,.inl rfl⟩
  | _ => cases hsub

/-- A workorder that has ended and that no processor attends to has no
channel left for a watcher to hang on. -/
theorem ended_releases_watchers {id : WorkorderId} {st : WorkorderStatus}
    (start : Started env config P) (run : Run (serverSystem env config) cancelsNoPending P ls P1)
    (hst : P1.shared.statusOf id = some st) (ended : st.terminal)
    (unattended : ¬Attended P1 id) :
    P1.shared.progressTxs.lookup id = none ∧ P1.shared.rawOutputTxs.lookup id = none ∧
      P1.shared.stdinTxs.lookup id = none := by
  obtain ⟨g,tracks,hR⟩ := services_run Released (fun _ _ _ _ _ h hs hc => released_step h hs hc)
    start (released_start start) run
  have hl := listed_of_status hst
  have hp : P1.shared.statusOf id ≠ some .pending := by
    intro e
    rw [hst] at e
    cases e
    cases ended
  rcases hR.shut id hl hp with ⟨i,t,ht,hsub⟩ | ⟨h1,h2,h3⟩
  · exact absurd (attended_of_subject tracks hR.upkeep ht hsub hl) unattended
  · simp only [view,Option.isSome_eq_false_iff,Option.isNone_iff_eq_none] at h1 h2 h3
    exact ⟨h1,h2,h3⟩

def isProcessOf (id : WorkorderId) : TaskKind → Bool
  | .process w => w.id == id
  | _ => false

def isSpawn : ServerOp → Bool
  | .spawnProcess _ => true
  | _ => false

def unattendedCheck (env : Codecs) (config : ServerConfig) (P : ServerPool) (id : WorkorderId) :
    Bool :=
  (List.range 10).all fun i => (P.tasks i).all fun t =>
    !isProcessOf id t.kind && escapes (serverSem env config) {} isSpawn t.prog P.shared

theorem unattended_of_check (hn : ∀ i, 10 ≤ i → P.tasks i = none)
    (h : unattendedCheck env config P id) : ¬Attended P id := by
  rintro ⟨i,k,p,v,hp,hv,hk⟩
  have hi : i < 10 := by
    by_contra hi
    rw [hn i (by omega)] at hp
    cases hp
  have ht := List.all_eq_true.mp h i (List.mem_range.mpr hi)
  rw [hp,Option.all_some,Bool.and_eq_true] at ht
  rcases hk with rfl | hb
  · simp [isProcessOf,hv] at ht
  · exact not_bound_of_escapes rfl ht.2 hb

def cancelsNoPendingCheck (s : Server) (_ : ℕ → Option TaskKind) (l : ServerLabel) : Bool :=
  match l with
  | .act _ _ (.cancel id) _ => s.statusOf id != some .pending
  | _ => true

theorem cancelsNoPending_of_check (s : Server) (kinds : ℕ → Option TaskKind) (l : ServerLabel)
    (_ : ∀ i, 10 ≤ i → kinds i = none) (h : cancelsNoPendingCheck s kinds l) :
    cancelsNoPending s kinds l := by
  unfold cancelsNoPendingCheck at h
  unfold cancelsNoPending
  split
  · exact bne_iff_ne.mp h
  · trivial

/-- A workorder is built to its end and its processor is gone. -/
theorem completed_releases_watchers :
    ∃ ls P1, Run (serverSystem plainCodecs .default) cancelsNoPending
        (freshPool plainCodecs .default) ls P1 ∧
      P1.shared.statusOf "w1" = some .completed ∧ ¬Attended P1 "w1" ∧
      P1.shared.progressTxs.lookup "w1" = none ∧ P1.shared.rawOutputTxs.lookup "w1" = none ∧
      P1.shared.stdinTxs.lookup "w1" = none := by
  obtain ⟨ls,P1,run,hn,h⟩ := exists_run_below (serverSystem plainCodecs .default)
    cancelsNoPending_of_check
    (claimedMoves ++ acts 39 4 9 "w1" ++ acts 1 4 8 "w1" ++ [.next 4])
    (freshPool plainCodecs .default) (by decide) (fun i hi => freshPool_none hi)
    (fun P => P.shared.statusOf "w1" == some .completed &&
      unattendedCheck plainCodecs .default P "w1") (by decide +kernel)
  rw [Bool.and_eq_true,beq_iff_eq] at h
  have unattended := unattended_of_check hn h.2
  exact ⟨ls,P1,run,h.1,unattended,
    ended_releases_watchers (started_fresh plainCodecs .default) run h.1 rfl unattended⟩

/-- A workorder that is cancelled while it waits in the queue keeps its channels. -/
theorem cancelled_keeps_watchers :
    ∃ ls P1, Run (serverSystem plainCodecs .default) unrestricted
        (freshPool plainCodecs .default) ls P1 ∧
      P1.shared.statusOf "w1" = some .cancelled ∧ ¬Attended P1 "w1" ∧
      P1.shared.progressTxs.lookup "w1" ≠ none ∧ P1.shared.rawOutputTxs.lookup "w1" ≠ none := by
  obtain ⟨ls,P1,run,hn,h⟩ := exists_run_below (serverSystem plainCodecs .default)
    (fun s kinds l _ => anyStep_unrestricted s kinds l)
    (submitMoves 3 "c1" "w1" ++ [.start 5 (.cancel "w1")] ++ acts 6 5 9 "w1" ++ [.next 5])
    (freshPool plainCodecs .default) (by decide) (fun i hi => freshPool_none hi)
    (fun P => P.shared.statusOf "w1" == some .cancelled &&
      (unattendedCheck plainCodecs .default P "w1" &&
        ((P.shared.progressTxs.lookup "w1").isSome && (P.shared.rawOutputTxs.lookup "w1").isSome)))
    (by decide)
  simp only [Bool.and_eq_true,beq_iff_eq] at h
  exact ⟨ls,P1,run,h.1,unattended_of_check hn h.2.1,Option.ne_none_iff_isSome.mpr h.2.2.1,
    Option.ne_none_iff_isSome.mpr h.2.2.2⟩

/-- Whatever is cancelled and evicted when, no two processors are ever at work on one
workorder. -/
theorem one_processor_each {a b : ℕ} {v v' : Workorder} (start : Started env config P)
    (run : Run (serverSystem env config) unrestricted P ls P1)
    (ha : P1.kinds a = some (.process v)) (hb : P1.kinds b = some (.process v'))
    (same : v.id = v'.id) : a = b := by
  obtain ⟨g,tracks,hU⟩ := services_run Upkeep (fun _ _ _ _ _ h hs _ => upkeep_step h hs) start
    (upkeep_start start) run
  rw [tracks.kinds] at ha hb
  obtain ⟨⟨_,q⟩,hq,rfl⟩ := Option.map_eq_some_iff.mp ha
  obtain ⟨⟨_,q'⟩,hq',rfl⟩ := Option.map_eq_some_iff.mp hb
  exact hU.held.once a b v.id (hU.owns_process hq) (same ▸ hU.owns_process hq')

/-- A cancel in the middle of provisioning leaves one processor at work. -/
theorem processor_alone_after_cancel : ∃ P ls P1 v, Started plainCodecs .default P ∧
    Run (serverSystem plainCodecs .default) unrestricted P ls P1 ∧
    P1.kinds 4 = some (.process v) ∧ P1.shared.statusOf v.id = some .cancelled ∧
    ∀ b v', P1.kinds b = some (.process v') → v'.id = v.id → b = 4 := by
  obtain ⟨ls,P1,run,h⟩ := exists_run_of_free_play (serverSystem plainCodecs .default)
    cancelProvisioningMoves (freshPool plainCodecs .default)
    (fun _ P => (P.kinds 4).any (isProcessOf "w1") && P.shared.statusOf "w1" == some .cancelled)
    (by decide)
  obtain ⟨hk,hc⟩ := Bool.and_eq_true_iff.mp h
  obtain ⟨k,hk,hp⟩ := (Option.any_eq_true _ _).mp hk
  cases k with
  | process v =>
    refine ⟨_,ls,P1,v,started_fresh _ _,run,hk,?_,fun b v' hb same => ?_⟩
    · rw [eq_of_beq hp]
      exact eq_of_beq hc
    · exact one_processor_each (started_fresh _ _) run hb hk same
  | _ => cases hp

/-- A workorder is listed under its own identifier. While it is pending it has its two
output channels and no input or container, and an identifier that was never given out
has nothing. -/
theorem tables_agree (start : Started env config P)
    (run : Run (serverSystem env config) unrestricted P ls P1) (id : WorkorderId) :
    (∀ v, P1.shared.workorders.lookup id = some v → v.id = id) ∧
      (P1.shared.statusOf id = some .pending → view P1.shared id = .ready) ∧
      (id ∉ P1.shared.issued → view P1.shared id = .bare) := by
  obtain ⟨g,-,hU⟩ := services_run Upkeep (fun _ _ _ _ _ h hs _ => upkeep_step h hs) start
    (upkeep_start start) run
  exact ⟨fun v hv => (hU.identity.filed id v hv).1,hU.pending id,hU.unknown id⟩

theorem submitted_has_channels : ∃ ls P1,
    Run (serverSystem plainCodecs .default) unrestricted (freshPool plainCodecs .default) ls P1 ∧
      P1.shared.statusOf "w1" = some .pending ∧ view P1.shared "w1" = .ready := by
  obtain ⟨ls,P1,run,h⟩ := exists_run_of_free_play (serverSystem plainCodecs .default)
    (submitMoves 3 "c1" "w1") (freshPool plainCodecs .default)
    (fun _ P => P.shared.statusOf "w1" == some .pending) (by decide)
  exact ⟨ls,P1,run,eq_of_beq h,
    (tables_agree (started_fresh _ _) run "w1").2.1 (eq_of_beq h)⟩

end Remerge.WatcherRelease
