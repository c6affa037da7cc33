import Remerge.ProcessorLedger
import Remerge.ServerLifetimes
import Remerge.TaskCensus

/-!
# Every exit of the processing cleans up

However the steps of the server interleave, a processor that returns has ended
its workorder or lost it to eviction, has removed its container, its staged
references and what the tables held for it, and has taken itself off
`builds_active` once. With the worker slots counted, there are never more
containers than slots.
-/

set_option autoImplicit false

namespace Remerge.ProcessingExits
open StepProgram Interleaving SnapshotTypes SnapshotStore SnapshotRuntime SnapshotCleanup
open ServerState ServerOps ServerTasks ServerPhases ServerCore StatusLifecycle ServiceStages
open ChannelUpkeep ServerLifetimes TaskCensus ProcessorLedger Function

abbrev processing (config : ServerConfig) :
    Discipline TaskKind ServerOp ServerRes ((Phase × Post) × Ledger) :=
  (service config).both ledger

abbrev Books : Type := Ghost TaskKind ((Phase × Post) × Ledger)

abbrev ProcessingStep (env : Codecs) (config : ServerConfig) :=
  GhostStep (serverSystem env config) (processing config)

section
variable {env : Codecs} {config : ServerConfig} {o : ServerOp} {w : ServerOracle} {s s' : Server}
  {r : ServerRes o}

def permitsNext (n : ℕ) : ServerOp → ℕ
  | .acquirePermit => n-1
  | .releasePermit => n+1
  | _ => n

def referencesNext (t : Table WorkorderId SnapshotReferenceSet) :
    ServerOp → Table WorkorderId SnapshotReferenceSet
  | .trackReferences id references => t.insert id references
  | .clearReferences id => t.erase id
  | _ => t

theorem stock_of_sem (hs : serverSem env config o w s = some (s',r)) :
    s'.permits = permitsNext s.permits o ∧
      s'.stagedReferences = referencesNext s.stagedReferences o := by
  rw [effect_of_sem env config hs]
  cases o with
  | evict =>
    simp only [effect]
    split <;> exact ⟨rfl,rfl⟩
  | _ => exact ⟨rfl,rfl⟩

end

section

structure Within (v left : View) : Prop where
  progress : left.progress = false → v.progress = false
  raw : left.raw = false → v.raw = false
  stdin : left.stdin = false → v.stdin = false
  container : left.container = false → v.container = false
  listed : left.listed = false → v.listed = false

theorem within_bare (left : View) : Within .bare left :=
  ⟨fun _ => rfl,fun _ => rfl,fun _ => rfl,fun _ => rfl,fun _ => rfl⟩

variable {left : View} {id : WorkorderId}

theorem within_touch {v : View} (h : Within v left) (o : ServerOp) :
    Within (touch v o) (touch left o) := by
  obtain ⟨h1,h2,h3,h4,h5⟩ := h
  cases o <;> constructor <;> first
    | exact h1 | exact h2 | exact h3 | exact h4 | exact h5 | exact fun _ => rfl | exact nofun

theorem touch_of_untouched {o : ServerOp} (h : touched o = none) (v : View) : touch v o = v := by
  cases o <;> first | rfl | cases h

def Ended (s : Server) (id : WorkorderId) : Prop :=
  ∀ st, s.statusOf id = some st → st.terminal

variable {env : Codecs} {config : ServerConfig} {o : ServerOp} {w : ServerOracle} {s s' : Server}
  {r : ServerRes o} {g : Services} {i a : ℕ} {k : TaskKind} {q q' : Phase × Post} {v : Workorder}

theorem within_other (hU : Upkeep s g) (ht : g i = some (k,q)) (ha : Serves k q.2.stage o)
    (hs : serverSem env config o w s = some (s',r)) (hg : g a = some (.process v,q')) (hne : a ≠ i)
    (h : Within (view s v.id) left) : Within (view s' v.id) left := by
  have untouched : touched o ≠ some v.id := fun e =>
    hne (hU.owner_once ht (touched_subject ha e) hg)
  rcases view_frame hs untouched with e | ⟨-,e,-⟩
  · rwa [e]
  · rw [e]
    exact within_bare left

theorem subject_process {st : Stage} (h : subject (.process v,st) = some id) : id = v.id := by
  cases st <;> first | exact (Option.some.inj h).symm | cases h

theorem within_own (hU : Upkeep s g) (ht : g i = some (.process v,q))
    (ha : Serves (.process v) q.2.stage o) (hs : serverSem env config o w s = some (s',r))
    (h : Within (view s v.id) left) : Within (view s' v.id) (leftNext left o r) := by
  have hfit := hU.fit i _ q v.id ht
  have touches : Within (view s' v.id) (touch left o) := by
    by_cases e : touched o = some v.id
    · rw [view_touched hs e]
      exact within_touch h o
    · have hn : touched o = none := by
        cases hto : touched o with
        | none => rfl
        | some id =>
          rw [hto,subject_process (touched_subject ha hto)] at e
          exact absurd rfl e
      rw [touch_of_untouched hn]
      rcases view_frame hs e with e | ⟨-,e,-⟩
      · rwa [e]
      · rw [e]
        exact within_bare left
  cases o with
  | hasProgress id =>
    cases r with
    | true => exact touches
    | false =>
      generalize q.2.stage = st at ha hfit
      cases ha with
      | plain hn _ => cases hn
      | watch =>
        have hr : (view s v.id).progress = false := congrArg Prod.snd (Option.some.inj hs)
        have he : s = s' := congrArg Prod.fst (Option.some.inj hs)
        rw [← he]
        rcases hfit rfl with e | e
        · rw [e] at hr
          cases hr
        · rw [e]
          exact within_bare _
  | _ => exact touches

theorem ended_kept (hp : Allowed config k q.1 o) (hs : serverSem env config o w s = some (s',r))
    (h : Ended s id) (unwritten : ∀ st, o ≠ .setStatus id st)
    (fresh : ∀ v, o = .insertWorkorder v → v.id ≠ id) : Ended s' id := by
  have hst := statusStep_of_core (coreStep_of_sem hp hs) id
  change StatusStep id o (s.statusOf id) (s'.statusOf id) at hst
  unfold Ended at h ⊢
  generalize s.statusOf id = before at hst h
  generalize s'.statusOf id = after at hst
  cases hst with
  | same => exact h
  | insert e => exact absurd e (fresh _ rfl)
  | claim => cases h _ rfl
  | cancel _ =>
    intro st e
    cases e
    rfl
  | write => exact absurd rfl (unwritten _)
  | evict _ => exact fun st e => nomatch e

theorem ended_other (ha : ((service config).monitor k).allows q o)
    (hs : serverSem env config o w s = some (s',r)) (free : subject (k,q.2.stage) ≠ some id)
    (h : Ended s id) : Ended s' id :=
  ended_kept ha.1 hs h (fun _ e => free (setStatus_subject (e ▸ ha.2.1)))
    fun _ e hv => free (touched_subject ha.2.1 (by rw [e,← hv]; rfl))

end

section
variable {k : TaskKind} {q : Ledger} {o : ServerOp}

def Slotted (q : Ledger) : Prop := q.deeds.containers.length ≤ if q.permit then 1 else 0

theorem slotted_of_none (h : q.deeds.containers = []) : Slotted q := by
  unfold Slotted
  rw [h]
  exact Nat.zero_le _

theorem slotted_next (h : Slotted q) (hp : q.panicked = false) (hs : q.stuck = false)
    (ha : Keeps k q o) (r : ServerRes o) : Slotted (ledgerNext q o r) := by
  cases ha with
  | quiet ho =>
    have same := same_quiet (q := q) ho r
    unfold Slotted
    rw [same.deeds,same.permit]
    exact h
  | acquire hn =>
    unfold Slotted at h
    rw [if_neg (by simp [hn])] at h
    exact h.trans (Nat.zero_le _)
  | spawn _ hc => exact slotted_of_none hc
  | track _ => exact h
  | clear => exact h
  | drop => exact h
  | start hp hc =>
    cases r with
    | error e => exact h
    | ok c =>
      change (c::q.deeds.containers).length ≤ if q.permit then 1 else 0
      rw [hc,hp]
      rfl
  | remove =>
    cases r with
    | error e => exact h
    | ok u => exact List.length_erase_le.trans h
  | release _ h' =>
    refine slotted_of_none ?_
    rcases h' with e | ⟨⟨-,e | e⟩,-⟩
    · rw [hp] at e
      cases e
    · rw [hs] at e
      cases e
    · exact e

end

/-- No processor misses its raw channel, and docker removes what it is told to. -/
def undisturbed : ServerCondition := fun _ _ l => match l with
  | .act _ _ (.hasRaw _) present => present
  | .act _ _ (.removeContainer _) removed => removed = .ok ()
  | _ => True

section

structure Account (s : Server) (t : TaskKind × ((Phase × Post) × Ledger)) : Prop where
  sound : t.2.2.panicked = false ∧ t.2.2.stuck = false
  slotted : Slotted t.2.2
  tables : ∀ v, t.1 = .process v → Within (view s v.id) t.2.2.left
  ended : ∀ v, t.1 = .process v → t.2.2.status.any WorkorderStatus.terminal → Ended s v.id

variable {env : Codecs} {config : ServerConfig} {s s' : Server} {b b' : Books} {l : ServerLabel}

theorem account_task (s : Server) (k : TaskKind) : Account s ((processing config).task k) :=
  ⟨⟨rfl,rfl⟩,slotted_of_none rfl,fun _ _ => ⟨nofun,nofun,nofun,nofun,nofun⟩,fun _ _ => nofun⟩

variable {i : ℕ} {k : TaskKind} {q : (Phase × Post) × Ledger} {o : ServerOp} {r : ServerRes o}
  {w : ServerOracle}

theorem sound_next (h : q.2.panicked = false ∧ q.2.stuck = false)
    (hc : undisturbed s b.kinds (.act i k o r)) :
    (ledgerNext q.2 o r).panicked = false ∧ (ledgerNext q.2 o r).stuck = false := by
  cases o with
  | hasRaw id | removeContainer c =>
    cases hc
    exact h
  | _ => exact h

theorem status_of_unwritten (h : ∀ id st, o ≠ .setStatus id st) (x : Option WorkorderStatus) :
    statusNext x o = x := by
  cases o with
  | setStatus id st => exact absurd rfl (h id st)
  | _ => rfl

theorem ended_own {v : Workorder} (ha : ((service config).monitor (.process v)).allows q.1 o)
    (hs : serverSem env config o w s = some (s',r))
    (h : q.2.status.any WorkorderStatus.terminal → Ended s v.id)
    (ht : (ledgerNext q.2 o r).status.any WorkorderStatus.terminal) : Ended s' v.id := by
  by_cases hw : ∃ id st, o = .setStatus id st
  · obtain ⟨id,st,rfl⟩ := hw
    have hid : id = v.id := subject_process (setStatus_subject ha.2.1)
    intro x hx
    rw [effect_of_sem env config hs] at hx
    have e := (statusOf_modify (core s) id v.id w.time st).symm.trans hx
    rw [if_pos hid.symm] at e
    obtain ⟨_,-,rfl⟩ := Option.map_eq_some_iff.mp e
    exact ht
  · have unwritten : ∀ id st, o ≠ .setStatus id st := fun id st e => hw ⟨id,st,e⟩
    refine ended_kept ha.1 hs (h ?_) (unwritten v.id) ?_
    · rwa [show (ledgerNext q.2 o r).status = _ from status_of_unwritten unwritten _] at ht
    · rintro x rfl
      have hserves := ha.2.1
      generalize q.1.2.stage = st at hserves
      cases hserves with
      | plain hn _ => cases hn

theorem processing_turns (k : TaskKind) (q : (Phase × Post) × Ledger) (k' : TaskKind)
    (h : (processing config).final k q (some k')) : phaseInit k' = .asking :=
  service_turns k q.1 k' h.1

theorem accounts_step (hU : Upkeep s b.first) (hb : ∀ i t, b i = some t → Account s t)
    (h : ProcessingStep env config s b l s' b')
    (hc : undisturbed s b.kinds l) : ∀ i t, b' i = some t → Account s' t := by
  refine tasks_kept processing_turns Account h hb (fun k _ => account_task s' k) ?_
  rintro i k q o r w ht allowed hs rfl
  have own := hb i _ ht
  refine ⟨⟨sound_next own.sound hc,slotted_next own.slotted own.sound.1 own.sound.2 allowed.2 r,
    ?_,?_⟩,fun v _ => account_task s' _,?_⟩
  · rintro v rfl
    exact within_own hU (first_some ht) allowed.1.2.1 hs (own.tables v rfl)
  · rintro v rfl
    exact ended_own allowed.1 hs (own.ended v rfl)
  · rintro a ⟨k',q'⟩ hne hg
    have other := hb a _ hg
    refine ⟨other.sound,other.slotted,?_,?_⟩
    · rintro v rfl
      exact within_other hU (first_some ht) allowed.1.2.1 hs (first_some hg) hne (other.tables v rfl)
    · rintro v rfl he
      exact ended_other allowed.1 hs
        (fun e => hne (hU.owner_once (first_some ht) e (first_some hg))) (other.ended v rfl he)

/-- The account of what the task in each place has done, kept from the labels.
A new task starts with what containers its place still has. -/
def note (d : ℕ → Deeds) : ServerLabel → ℕ → Deeds
  | .act i _ o r => update d i ((d i).after o r)
  | .next i _ _ => update d i ⟨(d i).containers,0⟩
  | .start _ _ => d

def deedsAfter (ls : List ServerLabel) : ℕ → Deeds := ls.foldl note fun _ => .nothing

def deedsOf : Option (TaskKind × ((Phase × Post) × Ledger)) → Deeds
  | some t => t.2.2.deeds
  | none => .nothing

theorem deedsOf_task (x : Option TaskKind) :
    deedsOf (x.map (processing config).task) = .nothing := by
  cases x <;> rfl

theorem deedsOf_update (b : Books) (i : ℕ) (x : Option (TaskKind × ((Phase × Post) × Ledger))) :
    (fun a => deedsOf (update b i x a)) = update (fun a => deedsOf (b a)) i (deedsOf x) := by
  funext a
  by_cases h : a = i
  · subst h
    simp
  · simp [update_of_ne h]

theorem books_step (hb : ∀ i t, b i = some t → Account s t)
    (h : ProcessingStep env config s b l s' b') :
    note (fun a => deedsOf (b a)) l = fun a => deedsOf (b' a) := by
  cases h with
  | start hk free =>
    rw [deedsOf_update]
    refine (update_eq_self_iff.mpr ?_).symm
    change _ = deedsOf (b _)
    rw [free]
    rfl
  | next ht ends =>
    rename_i i k q k'
    rw [deedsOf_update,deedsOf_task]
    obtain ⟨hp,hs⟩ := (hb _ _ ht).sound
    have none : q.2.deeds.containers = [] := by
      rcases ends.2.2 with e | ⟨-,e | e⟩
      · cases hp.symm.trans e
      · cases hs.symm.trans e
      · exact e
    simp only [note,ht,deedsOf,none]
    rfl
  | act ht allowed hs free =>
    rename_i i j k q o r w
    have hne : j ≠ i := fun e => by simp [e,ht] at free
    have hj : update b i (some (k,((processing config).monitor k).next q o r)) j = none := by
      rw [update_of_ne hne]
      exact free
    rw [Discipline.spawn_eq _ _ _ hj,deedsOf_update,deedsOf_update,deedsOf_task]
    simp only [note,ht]
    refine (update_eq_self_iff.mpr ?_).symm
    rw [update_of_ne hne,free]
    rfl

def hasSlot (t : TaskKind × ((Phase × Post) × Ledger)) : Bool := t.2.2.permit

def Slots (config : ServerConfig) (s : Server) (b : Books) : Prop :=
  ∃ n, Census b hasSlot n ∧ s.permits+n = config.maxWorkers

variable {k : TaskKind} {o : ServerOp}

theorem hasSlot_asking (h : phaseInit k = .asking) :
    hasSlot ((processing config).task k) = false := by
  cases k <;> first | rfl | cases h

theorem weight_quiet (h : quiet o) :
    weight hasSlot ((taskSpawns o).map (processing config).task) = 0 := by
  cases o <;> first | rfl | cases h

theorem permits_quiet (h : quiet o) (n : ℕ) : permitsNext n o = n := by
  cases o <;> first | rfl | cases h

theorem permits_balance {n m m' : ℕ} {q : (Phase × Post) × Ledger}
    {r : ServerRes o} (hp : s'.permits = permitsNext s.permits o)
    (pos : o = .acquirePermit → s.permits ≠ 0) (ha : Keeps k q.2 o)
    (em : m+weight hasSlot (some (k,q)) =
      n+weight hasSlot (some (k,((processing config).monitor k).next q o r)))
    (em' : m'+weight hasSlot none = m+weight hasSlot ((taskSpawns o).map (processing config).task))
    (e : s.permits+n = config.maxWorkers) : s'.permits+m' = config.maxWorkers := by
  have own : ∀ x : (Phase × Post) × Ledger,
      weight hasSlot (some (k,x)) = if x.2.permit then 1 else 0 := fun _ => rfl
  have nobody : weight hasSlot none = 0 := rfl
  rw [own,own] at em
  change m+(if q.2.permit then 1 else 0) = n+(if permitNext q.2.permit o then 1 else 0) at em
  rw [hp]
  cases ha with
  | quiet ho =>
    rw [permit_quiet ho] at em
    rw [weight_quiet ho] at em'
    rw [permits_quiet ho]
    omega
  | acquire h =>
    have hpos := pos rfl
    simp only [h,permitNext] at em
    change s.permits-1+m' = _
    change m'+0 = m+0 at em'
    simp at em
    omega
  | spawn h _ =>
    simp only [h,permitNext] at em
    change s.permits+m' = _
    change m'+0 = m+1 at em'
    simp at em
    omega
  | release h _ =>
    simp only [h,permitNext] at em
    change s.permits+1+m' = _
    change m'+0 = m+0 at em'
    simp at em
    omega
  | track _ | clear | start _ _ | remove | drop =>
    change m'+0 = m+0 at em'
    change s.permits+m' = _
    have same : m = n := Nat.add_right_cancel em
    omega

theorem slots_step (hS : Slots config s b) (h : ProcessingStep env config s b l s' b') :
    Slots config s' b' := by
  obtain ⟨n,hn,e⟩ := hS
  cases h with
  | start hk free =>
    rename_i k j
    refine ⟨n,census_same hn ?_,e⟩
    rw [free,weight_of_false (hasSlot_asking (by cases k <;> first | rfl | cases hk))]
    rfl
  | next ht ends =>
    rename_i i k q k'
    refine ⟨n,census_same hn ?_,e⟩
    rw [ht,weight_of_false ends.2.1]
    cases k' with
    | none => rfl
    | some k' => exact (weight_of_false (hasSlot_asking (processing_turns k q k' ends))).symm
  | act ht allowed hs free =>
    rename_i i j k q o r w
    have hne : j ≠ i := fun e => by simp [e,ht] at free
    have hj : update b i (some (k,((processing config).monitor k).next q o r)) j = none := by
      rw [update_of_ne hne]
      exact free
    obtain ⟨m,hm,em⟩ := census_update hn i (some (k,((processing config).monitor k).next q o r))
    obtain ⟨m',hm',em'⟩ := census_update hm j ((taskSpawns o).map (processing config).task)
    rw [Discipline.spawn_eq _ _ _ hj]
    refine ⟨m',hm',?_⟩
    rw [ht] at em
    rw [hj] at em'
    have pos : o = .acquirePermit → s.permits ≠ 0 := by
      rintro rfl h0
      change serverSem env config .acquirePermit w s = _ at hs
      simp [serverSem,h0] at hs
    exact permits_balance (stock_of_sem hs).1 pos allowed.2 em em' e

def Staged (s : Server) (b : Books) : Prop :=
  ∀ id, s.stagedReferences.lookup id ≠ none →
    ∃ i v q, b i = some (.process v,q) ∧ v.id = id ∧ q.2.staged

theorem references_quiet {o : ServerOp} (h : quiet o)
    (t : Table WorkorderId SnapshotReferenceSet) : referencesNext t o = t := by
  cases o <;> first | rfl | cases h

theorem staged_step (hS : Staged s b) (sound : ∀ i t, b i = some t → t.2.2.panicked = false)
    (h : ProcessingStep env config s b l s' b') : Staged s' b' := by
  intro id hid
  have kept : ∀ a v (q : (Phase × Post) × Ledger), b a = some (.process v,q) → v.id = id →
      q.2.staged → (∀ k o r, l ≠ .act a k o r) →
      ∃ i v q, b' i = some (.process v,q) ∧ v.id = id ∧ q.2.staged := by
    intro a v q ha hv hq idle
    refine ⟨a,v,q,h.kept ha idle ?_,hv,hq⟩
    rintro k k' rfl
    cases h with
    | next ht ends =>
      cases ht.symm.trans ha
      rcases ends.2.2 with e | ⟨e,-⟩
      · cases (sound a _ ha).symm.trans e
      · cases e.symm.trans hq
  by_cases acts : ∃ i k o r, l = .act i k o r
  · obtain ⟨i,k,o,r,rfl⟩ := acts
    obtain ⟨q,w,ht,allowed,hs,hi,-⟩ := h.acted
    rw [(stock_of_sem hs).2] at hid
    -- Whoever had them staged before still has, unless it is this task that clears them.
    have before : s.stagedReferences.lookup id ≠ none →
        (∀ v, k = .process v → v.id = id → stagedNext q.2.staged o = q.2.staged) →
        ∃ i v q, b' i = some (.process v,q) ∧ v.id = id ∧ q.2.staged := by
      intro hl same
      obtain ⟨a,v,q',ha,hv,hq⟩ := hS id hl
      by_cases hai : a = i
      · subst hai
        cases ht.symm.trans ha
        exact ⟨a,v,_,hi,hv,(same v rfl hv).trans hq⟩
      · refine kept a v q' ha hv hq fun k o r e => ?_
        cases e
        exact hai rfl
    cases allowed.2 with
    | quiet ho =>
      rw [references_quiet ho] at hid
      exact before hid fun _ _ _ => staged_quiet ho _
    | track _ =>
      rename_i v references _
      by_cases e : v.id = id
      · exact ⟨i,v,_,hi,e,rfl⟩
      · refine before ?_ fun v' e' hv' => ?_
        · change (s.stagedReferences.insert v.id references).lookup id ≠ none at hid
          rwa [AList.lookup_insert_ne (Ne.symm e)] at hid
        · cases e'
          exact absurd hv' e
    | clear =>
      rename_i v
      change (s.stagedReferences.erase v.id).lookup id ≠ none at hid
      by_cases e : v.id = id
      · subst e
        exact absurd (AList.lookup_erase v.id _) hid
      · refine before ?_ fun v' e' hv' => ?_
        · rwa [AList.lookup_erase_ne (Ne.symm e)] at hid
        · cases e'
          exact absurd hv' e
    | _ => exact before hid fun _ _ _ => rfl
  · have hs : s' = s := by
      cases h with
      | act => exact absurd ⟨_,_,_,_,rfl⟩ acts
      | _ => rfl
    rw [hs] at hid
    obtain ⟨a,v,q,ha,hv,hq⟩ := hS id hid
    exact kept a v q ha hv hq fun k o r e => acts ⟨_,_,_,_,e⟩

end

variable {env : Codecs} {config : ServerConfig} {P P1 : ServerPool} {ls : List ServerLabel}

structure Kept (config : ServerConfig) (s : Server) (b : Books) (d : ℕ → Deeds) : Prop where
  upkeep : Upkeep s b.first
  accounts : ∀ i t, b i = some t → Account s t
  deeds : ∀ a, d a = deedsOf (b a)
  slots : Slots config s b
  staged : Staged s b

variable {s : Server} {b : Books} {d : ℕ → Deeds} {l : ServerLabel}

theorem kept_step {s' : Server} {b' : Books} (hK : Kept config s b d)
    (h : ProcessingStep env config s b l s' b')
    (hc : undisturbed s b.kinds l) : Kept config s' b' (note d l) :=
  ⟨upkeep_step hK.upkeep h.first,accounts_step hK.upkeep hK.accounts h hc,
    fun a => by rw [funext hK.deeds,books_step hK.accounts h],slots_step hK.slots h,
    staged_step hK.staged (fun i t ht => (hK.accounts i t ht).sound.1) h⟩

def startBooks (config : ServerConfig) : Books :=
  fun i => (backgroundKind i).map (processing config).task

theorem startBooks_first (config : ServerConfig) :
    (startBooks config).first = startServices config := by
  funext i
  match i with
  | 0 | 1 | 2 | n+3 => rfl

theorem startBooks_some {i : ℕ} {t : TaskKind × ((Phase × Post) × Ledger)}
    (h : startBooks config i = some t) :
    ∃ k, t = (processing config).task k ∧ hasSlot t = false := by
  obtain ⟨k,hk,rfl⟩ := Option.map_eq_some_iff.mp h
  refine ⟨k,rfl,?_⟩
  match i with
  | 0 | 1 | 2 =>
    cases hk
    rfl
  | n+3 => cases hk

theorem processing_obeyed (env : Codecs) (config : ServerConfig) :
    Obeys (serverSystem env config) (processing config) :=
  (service_obeyed env config).both (ledger_obeyed env config)

theorem kept_start (start : Started env config P) :
    Kept config P.shared (startBooks config) fun _ => .nothing := by
  refine ⟨startBooks_first config ▸ upkeep_start start,fun i t ht => ?_,?_,?_,?_⟩
  · obtain ⟨k,rfl,-⟩ := startBooks_some ht
    exact account_task _ k
  · exact fun i => (deedsOf_task _).symm
  · obtain ⟨now,store,disk,issued,-⟩ := start
    refine ⟨0,census_none fun i => ?_,rfl⟩
    cases h : startBooks config i with
    | none => rfl
    | some t => exact (startBooks_some h).choose_spec.2
  · obtain ⟨now,store,disk,issued,-⟩ := start
    exact fun id h => absurd rfl h

theorem Kept.containers (hK : Kept config s b d) (F : Finset (ℕ × ContainerId))
    (hF : ∀ x ∈ F, x.2 ∈ (d x.1).containers) : F.card ≤ config.maxWorkers := by
  obtain ⟨n,⟨G,hG,hn⟩,e⟩ := hK.slots
  have holder : ∀ x ∈ F, ∃ t, b x.1 = some t ∧ x.2 ∈ t.2.2.deeds.containers := by
    intro x hx
    have hm := hF x hx
    rw [hK.deeds] at hm
    cases hb : b x.1 with
    | none => simp [hb,deedsOf,Deeds.nothing] at hm
    | some t =>
      rw [hb] at hm
      exact ⟨t,rfl,hm⟩
  have single : ∀ t : TaskKind × ((Phase × Post) × Ledger), Slotted t.2.2 → ∀ c c',
      c ∈ t.2.2.deeds.containers → c' ∈ t.2.2.deeds.containers → hasSlot t ∧ c = c' := by
    intro t ht c c' hc hc'
    have pos := List.length_pos_of_mem hc
    unfold Slotted at ht
    split at ht
    · next hp =>
      obtain ⟨x,hx⟩ := List.length_eq_one_iff.mp (Nat.le_antisymm ht pos)
      rw [hx,List.mem_singleton] at hc hc'
      exact ⟨hp,hc.trans hc'.symm⟩
    · omega
  have inj : Set.InjOn Prod.fst (F : Set (ℕ × ContainerId)) := by
    intro x hx y hy hxy
    obtain ⟨t,ht,hxm⟩ := holder x hx
    obtain ⟨t',ht',hym⟩ := holder y hy
    rw [← hxy,ht] at ht'
    cases ht'
    exact Prod.ext hxy (single t (hK.accounts _ t ht).slotted _ _ hxm hym).2
  have sub : F.image Prod.fst ⊆ G := by
    intro i hi
    obtain ⟨x,hx,rfl⟩ := Finset.mem_image.mp hi
    obtain ⟨t,ht,hxm⟩ := holder x hx
    rw [hG,ht]
    exact (single t (hK.accounts _ t ht).slotted _ _ hxm hxm).1
  calc F.card = (F.image Prod.fst).card := (Finset.card_image_of_injOn inj).symm
    _ ≤ G.card := Finset.card_le_card sub
    _ ≤ config.maxWorkers := by omega

/-- Nothing is left of the workorder but, possibly, its entry with a final status. -/
structure Released (s : Server) (id : WorkorderId) : Prop where
  ended : ∀ st, s.statusOf id = some st → st.terminal
  references : s.stagedReferences.lookup id = none
  container : s.containerIds.lookup id = none
  progress : s.progressTxs.lookup id = none
  raw : s.rawOutputTxs.lookup id = none
  stdin : s.stdinTxs.lookup id = none

/-- A processor that gives its slot back, which is what it does once the
processing has returned, has cleaned up; and there are at most as many
containers as workers at any time. -/
theorem processing_exits_clean (start : Started env config P)
    (run : Run (serverSystem env config) undisturbed P ls P1) :
    (∀ i v r P2, Step (serverSystem env config) P1 (.act i (.process v) .releasePermit r) P2 →
      Released P1.shared v.id ∧ deedsAfter ls i = ⟨[],1⟩) ∧
    ∀ F : Finset (ℕ × ContainerId), (∀ x ∈ F, x.2 ∈ (deedsAfter ls x.1).containers) →
      F.card ≤ config.maxWorkers := by
  have tracks : Tracks (processing config) P (startBooks config) := by
    cases start
    exact tracks_background (processing_obeyed env config) _ fun _ => rfl
  obtain ⟨b,tracks,hK⟩ := run_noted (processing_obeyed env config) note (Kept config)
    (fun _ _ _ _ _ _ hK hs hc => kept_step hK hs hc) run ⟨_,tracks,kept_start start⟩
  refine ⟨fun i v r P2 step => ?_,fun F hF => hK.containers F hF⟩
  obtain ⟨q,w,hb,allowed,-⟩ := tracks.acting step
  have account := hK.accounts i _ hb
  obtain ⟨⟨hstaged,hcontainers⟩,hdrops,hleft⟩ : q.2.settled := by
    cases allowed.2 with
    | quiet ho => cases ho
    | release _ h => exact h.resolve_left (by rw [account.sound.1]; nofun)
  obtain ⟨hp,hr,hi,hc,hend⟩ := hleft
  have within := account.tables v rfl
  have gone : ∀ {ν : Type} {x : Option ν}, x.isSome = false → x = none := by
    intro ν x h
    simpa using h
  refine ⟨⟨?_,?_,gone (within.container hc),gone (within.progress hp),gone (within.raw hr),
    gone (within.stdin hi)⟩,?_⟩
  · rcases hend with e | e
    · exact account.ended v rfl e
    · intro st hst
      cases (within.listed e).symm.trans (listed_of_status hst)
  · by_contra hne
    obtain ⟨a,v',q',ha,hv,hq⟩ := hK.staged v.id hne
    have same : a = i := by
      refine hK.upkeep.held.once a i v.id ?_ (hK.upkeep.owns_process (first_some hb))
      exact hv ▸ hK.upkeep.owns_process (first_some ha)
    subst same
    cases hb.symm.trans ha
    cases hstaged.symm.trans hq
  · have none := hcontainers.resolve_left (by rw [account.sound.2]; nofun)
    rw [deedsAfter,hK.deeds,hb]
    change q.2.deeds = _
    rw [← none,← hdrops]

def undisturbedCheck (_ : Server) (_ : ℕ → Option TaskKind) (l : ServerLabel) : Bool := match l with
  | .act _ _ (.hasRaw _) present => present
  | .act _ _ (.removeContainer _) (.error _) => false
  | _ => true

theorem undisturbed_of_check (s : Server) (kinds : ℕ → Option TaskKind) (l : ServerLabel)
    (_ : ∀ i, 10 ≤ i → kinds i = none) (h : undisturbedCheck s kinds l) :
    undisturbed s kinds l := by
  unfold undisturbed
  split
  · exact h
  · next removed =>
    cases removed with
    | ok u => rfl
    | error e => cases h
  · trivial

def releases (id : WorkorderId) : ServerLabel → Bool
  | .act _ (.process v) .releasePermit _ => v.id == id
  | _ => false

theorem act_of_releases {id : WorkorderId} (h : releases id l) :
    ∃ i v r, l = .act i (.process v) .releasePermit r ∧ v.id = id := by
  unfold releases at h
  split at h
  · exact ⟨_,_,_,rfl,beq_iff_eq.mp h⟩
  · cases h

/-- A build that goes through leaves nothing behind. -/
theorem finished_build_released :
    ∃ ls P1 i, Run (serverSystem plainCodecs .default) undisturbed
        (freshPool plainCodecs .default) ls P1 ∧
      Released P1.shared "w1" ∧ deedsAfter ls i = ⟨[],1⟩ := by
  obtain ⟨ls,P1,l,P2,run,step,-,h⟩ := exists_step_of_play
    (serverSystem plainCodecs .default) undisturbed_of_check
    (claimedMoves ++ acts 39 4 9 "w1") (.act 4 8 {}) (freshPool plainCodecs .default)
    (by decide) (fun i hi => freshPool_none hi) (fun _ l => releases "w1" l) (by decide)
  obtain ⟨i,v,r,rfl,hv⟩ := act_of_releases h
  exact ⟨ls,P1,i,run,hv ▸ (processing_exits_clean
    (started_fresh plainCodecs .default) run).1 i v r P2 step⟩

end Remerge.ProcessingExits
