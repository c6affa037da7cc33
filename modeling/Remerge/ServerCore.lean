import Remerge.ServerPhases

/-!
# What a step can do to the core state

`CoreStep` lists, phase by phase, every effect an operation can have on the
workorder map, the registry, the submission lock and the issued identifiers.
It is derived from the semantics in `coreStep_of_sem`; invariants are proved
by cases on it.
-/

set_option autoImplicit false

namespace Remerge.ServerCore
open StepProgram Interleaving SnapshotTypes SnapshotStore SnapshotRuntime SnapshotCleanup
open ServerState ServerOps ServerTasks ServerPhases

variable {env : Codecs} {config : ServerConfig}

structure Core where
  workorders : Table WorkorderId Workorder
  clients : Table ClientId ClientState
  submissionLock : Bool
  issued : List Uuid

def core (s : Server) : Core := ⟨s.workorders,s.clients,s.submissionLock,s.issued⟩

def Core.statusOf (c : Core) (id : WorkorderId) : Option WorkorderStatus :=
  (c.workorders.lookup id).map (·.status)

def Core.markerOf (c : Core) (client : ClientId) : Option WorkorderId :=
  (c.clients.lookup client).bind (·.activeWorkorder)

def Core.activeCount (c : Core) : ℕ := c.workorders.count Workorder.isActive

inductive CoreStep (config : ServerConfig) :
    TaskKind → Phase → Core → ServerOp → Phase → Core → Prop where
  | plain {k : TaskKind} {q : Phase} {c : Core} {o : ServerOp} (h : isCore o = false) :
      CoreStep config k q c o q c
  | newId {req : SubmitRequest} {c : Core} {id : WorkorderId} (fresh : id ∉ c.issued) :
      CoreStep config (.submit req) .asking c .newId (.named id)
        { c with issued := id::c.issued }
  | lock {req : SubmitRequest} {id : WorkorderId} {c : Core} (free : c.submissionLock = false) :
      CoreStep config (.submit req) (.named id) c .lockSubmission (.locked id)
        { c with submissionLock := true }
  | room {req : SubmitRequest} {id : WorkorderId} {c : Core}
      (h : c.activeCount < config.maxActiveWorkorders) :
      CoreStep config (.submit req) (.locked id) c .countActive (.room id) c
  | full {req : SubmitRequest} {id : WorkorderId} {c : Core} :
      CoreStep config (.submit req) (.locked id) c .countActive .releasing c
  | refuse {req : SubmitRequest} {q : Phase} {id : WorkorderId} {c : Core} {role : ClientRole}
      {ch sh : String} (hq : q = .locked id ∨ q = .room id) :
      CoreStep config (.submit req) q c (.updateClient req.clientId role ch sh) .releasing c
  | accept {req : SubmitRequest} {q : Phase} {id : WorkorderId} {c : Core} {role : ClientRole}
      {ch sh : String} {cs : ClientState}
      (hq : q = .room id ∨ (q = .locked id ∧ config.maxActiveWorkorders = 0))
      (hm : c.markerOf req.clientId = none) (hcs : cs.activeWorkorder = none) :
      CoreStep config (.submit req) q c (.updateClient req.clientId role ch sh) (.admitted id)
        { c with clients := c.clients.insert req.clientId cs }
  | insert {req : SubmitRequest} {w : Workorder} {c : Core} (hc : w.clientId = req.clientId)
      (hs : w.status = .pending) :
      CoreStep config (.submit req) (.admitted w.id) c (.insertWorkorder w) (.inserted w.id)
        { c with workorders := c.workorders.insert w.id w }
  | setActive {req : SubmitRequest} {id : WorkorderId} {c : Core} :
      CoreStep config (.submit req) (.inserted id) c (.setActive req.clientId id) .releasing
        { c with clients := setActiveWorkorder req.clientId id c.clients }
  | unlock {req : SubmitRequest} {c : Core} :
      CoreStep config (.submit req) .releasing c .unlockSubmission .finished
        { c with submissionLock := false }
  | cancelMiss {id : WorkorderId} {c : Core} :
      CoreStep config (.cancel id) .asking c (.cancel id) .finished c
  | cancelHit {id : WorkorderId} {c : Core} {v : Workorder} (hl : c.workorders.lookup id = some v)
      (ha : v.status.active) :
      CoreStep config (.cancel id) .asking c (.cancel id) (.mustClear v.clientId)
        { c with workorders := c.workorders.insert id { v with status := .cancelled } }
  | cancelClear {id : WorkorderId} {client : ClientId} {c : Core} :
      CoreStep config (.cancel id) (.mustClear client) c (.clearActive client) .finished
        { c with clients := clearActiveWorkorder client c.clients }
  | idle {c : Core} : CoreStep config .queue .asking c .findPending .finished c
  | find {c : Core} {key : WorkorderId} {w : Workorder} (hl : c.workorders.lookup key = some w)
      (hp : w.status = .pending) : CoreStep config .queue .asking c .findPending (.found w) c
  | claimMiss {w : Workorder} {c : Core} :
      CoreStep config .queue (.found w) c (.claim w.id) .finished c
  | claimHit {w v : Workorder} {c : Core} {now : Time} (hl : c.workorders.lookup w.id = some v)
      (hp : v.status = .pending) :
      CoreStep config .queue (.found w) c (.claim w.id) (.claimed w)
        { c with workorders := c.workorders.insert w.id (writeStatus now .provisioning v) }
  | spawn {w : Workorder} {c : Core} :
      CoreStep config .queue (.claimed w) c (.spawnProcess w) .finished c
  | build {w : Workorder} {c : Core} {now : Time} :
      CoreStep config (.process w) .provisioning c (.setStatus w.id .building) .building
        { c with workorders := c.workorders.modify w.id (writeStatus now .building) }
  | finish {w : Workorder} {q : Phase} {c : Core} {now : Time} {st : WorkorderStatus}
      (hq : q = .provisioning ∨ q = .building) (ht : st.terminal) :
      CoreStep config (.process w) q c (.setStatus w.id st) .ended
        { c with workorders := c.workorders.modify w.id (writeStatus now st) }
  | startWorker {w : Workorder} {c : Core} {tag : String} :
      CoreStep config (.process w) .building c (.startWorker w.id tag) .building c
  | endClear {w : Workorder} {c : Core} :
      CoreStep config (.process w) .ended c (.clearActive w.clientId) .finished
        { c with clients := clearActiveWorkorder w.clientId c.clients }
  | evict {c : Core} {workorders : Table WorkorderId Workorder}
      (h : ∀ id, workorders.lookup id = c.workorders.lookup id ∨
        (workorders.lookup id = none ∧ ∀ st, c.statusOf id = some st → st.terminal))
      (hn : workorders.count Workorder.isActive ≤ c.activeCount) :
      CoreStep config .evict .asking c .evict .asking { c with workorders := workorders }

section
variable {w : ServerOracle} {s s' : Server} {o : ServerOp} {r : ServerRes o}

theorem plain_core (h : isCore o = false) (hs : serverSem env config o w s = some (s',r)) :
    core s' = core s := by
  rw [effect_of_sem env config hs]
  cases o <;> first | rfl | cases h

theorem lookup_without {ν : Type} (ids : List WorkorderId) (t : Table WorkorderId ν)
    (id : WorkorderId) : (without ids t).lookup id = if id ∈ ids then none else t.lookup id := by
  unfold without
  rw [AList.lookup_keep]
  by_cases h : id ∈ ids
  · cases t.lookup id <;> simp [h]
  · cases t.lookup id <;> simp [h]

def AllTerminal (ids : List WorkorderId) (t : Table WorkorderId Workorder) : Prop :=
  ∀ id ∈ ids, ∃ v, t.lookup id = some v ∧ v.status.terminal

theorem staleIds_terminal (cutoff : Time) (t : Table WorkorderId Workorder) :
    AllTerminal (staleIds cutoff t) t := by
  intro id h
  obtain ⟨e,he,rfl⟩ := List.mem_map.mp h
  obtain ⟨hm,hp⟩ := List.mem_filter.mp he
  simp only [Bool.and_eq_true] at hp
  exact ⟨e.2,AList.mem_lookup_iff.mpr hm,hp.1⟩

theorem excessIds_terminal (cap : ℕ) (t : Table WorkorderId Workorder) :
    AllTerminal (excessIds cap t) t := by
  intro id h
  unfold excessIds at h
  split at h
  · obtain ⟨e,he,rfl⟩ := List.mem_map.mp h
    have hs := (List.mem_insertionSort byUpdatedAt).mp (List.mem_of_mem_take he)
    obtain ⟨v,hv,rfl⟩ := List.mem_map.mp hs
    obtain ⟨hm,hp⟩ := List.mem_filter.mp hv
    exact ⟨v.2,AList.mem_lookup_iff.mpr hm,hp⟩
  · exact absurd h (by simp)

theorem lookup_evicted (cutoff : Time) (id : WorkorderId) :
    (evictWorkorders config cutoff s).1.workorders.lookup id = s.workorders.lookup id ∨
      ((evictWorkorders config cutoff s).1.workorders.lookup id = none ∧
        ∀ st, (core s).statusOf id = some st → st.terminal) := by
  have terminal : ∀ {v : Workorder}, s.workorders.lookup id = some v → v.status.terminal →
      ∀ st, (core s).statusOf id = some st → st.terminal := by
    intro v hv ht st hst
    simp only [Core.statusOf,core,hv,Option.map_some,Option.some.injEq] at hst
    exact hst ▸ ht
  change (without _ (without _ s.workorders)).lookup id = _ ∨
    ((without _ (without _ s.workorders)).lookup id = _ ∧ _)
  rw [lookup_without,lookup_without]
  by_cases hs : id ∈ staleIds cutoff s.workorders
  · obtain ⟨v,hv,ht⟩ := staleIds_terminal cutoff s.workorders id hs
    exact .inr ⟨by simp [hs],terminal hv ht⟩
  · rw [if_neg hs]
    split
    · next he =>
      obtain ⟨v,hv,ht⟩ := excessIds_terminal _ _ id he
      change (without _ s.workorders).lookup id = some v at hv
      rw [lookup_without,if_neg hs] at hv
      exact .inr ⟨rfl,terminal hv ht⟩
    · exact .inl rfl

theorem coreStep_of_sem {k : TaskKind} {q : Phase} (ha : Allowed config k q o)
    (hs : serverSem env config o w s = some (s',r)) :
    CoreStep config k q (core s) o (phaseNext config q o r) (core s') := by
  cases ha with
  | plain h =>
    rw [plain_core h hs,phaseNext_plain q o r h]
    exact .plain h
  | newId =>
    simp only [serverSem,Option.ite_none_left_eq_some] at hs
    obtain ⟨hf,he⟩ := hs
    cases he
    exact .newId hf
  | lock =>
    simp only [serverSem,Option.ite_none_left_eq_some,Bool.not_eq_true] at hs
    obtain ⟨hf,he⟩ := hs
    cases he
    exact .lock hf
  | count h =>
    rename_i req id
    cases hs
    by_cases hn : s.activeCount < config.maxActiveWorkorders
    · have hq : phaseNext config (.locked id) .countActive s.activeCount = .room id := if_pos hn
      rw [hq]
      exact .room hn
    · have hq : phaseNext config (.locked id) .countActive s.activeCount = .releasing := if_neg hn
      rw [hq]
      exact .full
  | unlimited h =>
    simp only [serverSem] at hs
    split at hs
    · next hu =>
      cases hs
      obtain ⟨hm,cs,hcs,rfl⟩ := updateClient_ok hu
      exact .accept (.inr ⟨rfl,h⟩) hm hcs
    · cases hs
      exact .refuse (.inl rfl)
  | update =>
    simp only [serverSem] at hs
    split at hs
    · next hu =>
      cases hs
      obtain ⟨hm,cs,hcs,rfl⟩ := updateClient_ok hu
      exact .accept (.inl rfl) hm hcs
    · cases hs
      exact .refuse (.inr rfl)
  | insert hc hst =>
    cases of_exclusive hs
    exact .insert hc hst
  | setActive =>
    cases hs
    exact .setActive
  | unlock =>
    cases hs
    exact .unlock
  | cancel =>
    cases of_exclusive hs
    unfold cancelStatus
    split
    · exact .cancelMiss
    · next v hv =>
      split
      · next h => exact .cancelHit hv h
      · exact .cancelMiss
  | cancelClear =>
    cases hs
    exact .cancelClear
  | find =>
    simp only [serverSem] at hs
    split at hs
    · split at hs
      · next v hv =>
        simp only [Option.ite_none_right_eq_some] at hs
        obtain ⟨ho,he⟩ := hs
        cases he
        have hp : v.status = .pending := by
          simp only [isOldestPending,Bool.and_eq_true,beq_iff_eq] at ho
          exact ho.1
        exact .find hv hp
      · cases hs
    · cases hs
      exact .idle
  | claim =>
    cases of_exclusive hs
    unfold claimWorkorder
    split
    · next v hv =>
      split
      · next h => exact .claimHit hv h
      · exact .claimMiss
    · exact .claimMiss
  | spawn =>
    cases hs
    exact .spawn
  | build =>
    cases of_exclusive hs
    exact .build
  | endEarly h =>
    cases of_exclusive hs
    rw [phaseNext_terminal _ _ _ _ h]
    exact .finish (.inl rfl) h
  | endBuild h =>
    cases of_exclusive hs
    rw [phaseNext_terminal _ _ _ _ h]
    exact .finish (.inr rfl) h
  | startWorker =>
    cases hs
    exact .startWorker
  | endClear =>
    cases hs
    exact .endClear
  | evict =>
    simp only [serverSem,Option.ite_none_right_eq_some] at hs
    obtain ⟨-,he⟩ := hs
    split at he
    · cases he
      exact .evict (fun id => lookup_evicted _ id)
        (le_trans (AList.count_keep_le _ _ _) (AList.count_keep_le _ _ _))
    · cases he
      exact .evict (fun id => .inl rfl) le_rfl

end

abbrev Phases : Type := Ghost TaskKind Phase

def Idle (x : Option (TaskKind × Phase)) : Prop := x = none ∨ ∃ k, x = some (k,.asking)

/-- The steps of the whole server seen through phases: a task begins, ends or
goes on as another kind; a task acts, possibly leaving a cleanup pass behind;
the queue loop hands a claimed workorder to a processor. -/
inductive PhaseStep (config : ServerConfig) (c : Core) (g : Phases) :
    ServerLabel → Core → Phases → Prop where
  | turn {l : ServerLabel} {i : ℕ} {x : Option (TaskKind × Phase)} (hx : Idle x)
      (hg : g i = none ∨ ∃ k q k', g i = some (k,q) ∧ phaseFinal k q k')
      (hl : ∀ i k o r, l ≠ .act i k o r) :
      PhaseStep config c g l c (Function.update g i x)
  | act {c' : Core} {i j : ℕ} {k : TaskKind} {q q' : Phase} {o : ServerOp} {r : ServerRes o}
      {x : Option (TaskKind × Phase)} (ht : g i = some (k,q))
      (hs : CoreStep config k q c o q' c') (free : g j = none) (hx : Idle x) :
      PhaseStep config c g (.act i k o r) c'
        (Function.update (Function.update g i (some (k,q'))) j x)
  | spawn {i j : ℕ} {w : Workorder} {r : Unit} (ht : g i = some (.queue,.claimed w))
      (free : g j = none) :
      PhaseStep config c g (.act i .queue (.spawnProcess w) r) c
        (Function.update (Function.update g i (some (.queue,.finished))) j
          (some (.process w,.provisioning)))

theorem idle_next {k : TaskKind} {q : Phase} {k' : Option TaskKind} (h : phaseFinal k q k')
    (config : ServerConfig) : Idle (k'.map (phases config).task) := by
  cases k' with
  | none => exact .inl rfl
  | some k' =>
    refine .inr ⟨k',?_⟩
    have hi : phaseInit k' = .asking := by
      cases k <;> simp [phaseFinal] at h <;> aesop
    simp [Discipline.task,phases,hi]

theorem phaseStep_of_ghost {s s' : Server} {g g' : Phases} {l : ServerLabel}
    (h : GhostStep (serverSystem env config) (phases config) s g l s' g') :
    PhaseStep config (core s) g l (core s') g' := by
  cases h with
  | start hk free =>
    rename_i k j
    refine .turn (.inr ⟨k,?_⟩) (.inl free) (by simp)
    cases k <;> first | rfl | cases hk
  | next ht ends => exact .turn (idle_next ends config) (.inr ⟨_,_,_,ht,ends⟩) (by simp)
  | act ht allowed hs free =>
    rename_i i j k q o r w
    have hc := coreStep_of_sem allowed hs
    have hj : Function.update g i (some (k,phaseNext config q o r)) j = none := by
      have hne : j ≠ i := fun e => by simp [e,ht] at free
      rw [Function.update_of_ne hne]
      exact free
    change PhaseStep config (core s) g _ (core s') ((phases config).spawn _ o j
      (Function.update g i (some (k,phaseNext config q o r))))
    rw [Discipline.spawn_eq _ _ _ hj]
    by_cases hp : ∃ w, o = .spawnProcess w
    · obtain ⟨w,rfl⟩ := hp
      cases allowed with
      | plain h => simp [isCore] at h
      | spawn =>
        cases hs
        exact .spawn ht free
    · refine .act ht hc free ?_
      cases o with
      | spawnProcess w => exact absurd ⟨w,rfl⟩ hp
      | spawnCleanup => exact .inr ⟨.cleanup,rfl⟩
      | _ => exact .inl rfl

section
variable {ν : Type} {g : Phases} {role : TaskKind × Phase → Option ν}

def RestsIdle (role : TaskKind × Phase → Option ν) : Prop := ∀ k, role (k,.asking) = none

variable {x : Option (TaskKind × Phase)} {i a j : ℕ} {v : ν} {k : TaskKind} {q' : Phase}

theorem RestsIdle.idle (h : RestsIdle role) (hx : Idle x) : x.bind role = none := by
  rcases hx with rfl | ⟨k,rfl⟩
  · rfl
  · exact h k

theorem held_turn (h : RestsIdle role) (hx : Idle x)
    (ha : roleAt (Function.update g i x) role a = some v) : roleAt g role a = some v := by
  rw [roleAt_update,h.idle hx] at ha
  rcases update_some ha with ⟨-,he⟩ | ⟨-,he⟩
  · cases he
  · exact he

variable {q : Phase} {t : TaskKind × Phase}

theorem roleAt_act (h : RestsIdle role) (ht : g i = some (k,q)) (free : g j = none) (hx : Idle x) :
    roleAt (Function.update (Function.update g i (some (k,q'))) j x) role =
      Function.update (roleAt g role) i (role (k,q')) := by
  have hne : j ≠ i := fun e => by simp [e,ht] at free
  rw [roleAt_update,roleAt_update,h.idle hx]
  funext a
  by_cases ha : a = j
  · subst ha
    simp [Function.update_of_ne hne,roleAt,free]
  · simp [Function.update_of_ne ha]

theorem held_act (h : RestsIdle role) (ht : g i = some (k,q)) (free : g j = none) (hx : Idle x)
    (ha : roleAt (Function.update (Function.update g i (some (k,q'))) j x) role a = some v) :
    (a = i ∧ role (k,q') = some v) ∨ (a ≠ i ∧ roleAt g role a = some v) := by
  rw [roleAt_act h ht free hx] at ha
  exact update_some ha

theorem held_spawn {w : Workorder}
    (rests : role (.queue,.finished) = none)
    (ha : roleAt (Function.update (Function.update g i (some (.queue,.finished))) j
      (some (.process w,.provisioning))) role a = some v) :
    (a = j ∧ role (.process w,.provisioning) = some v) ∨
      (a ≠ i ∧ a ≠ j ∧ roleAt g role a = some v) := by
  rw [roleAt_update,roleAt_update] at ha
  rcases update_some ha with he | ⟨hj,ha⟩
  · exact .inl he
  · rcases update_some ha with ⟨-,he⟩ | ⟨hi,he⟩
    · exact absurd (rests.symm.trans he) (by simp)
    · exact .inr ⟨hi,hj,he⟩

theorem get_act (hx : Idle x)
    (h : Function.update (Function.update g i (some (k,q'))) j x a = some t) :
    (a = i ∧ t = (k,q')) ∨ (∃ k', t = (k',.asking)) ∨ (a ≠ i ∧ g a = some t) := by
  by_cases haj : a = j
  · subst haj
    rw [Function.update_self] at h
    rcases hx with rfl | ⟨k',rfl⟩
    · cases h
    · exact .inr (.inl ⟨k',(Option.some.inj h).symm⟩)
  · rw [Function.update_of_ne haj] at h
    by_cases hai : a = i
    · subst hai
      rw [Function.update_self] at h
      exact .inl ⟨rfl,(Option.some.inj h).symm⟩
    · rw [Function.update_of_ne hai] at h
      exact .inr (.inr ⟨hai,h⟩)

theorem get_turn (hx : Idle x) (h : Function.update g i x a = some t) :
    (∃ k', t = (k',.asking)) ∨ (a ≠ i ∧ g a = some t) := by
  by_cases hai : a = i
  · subst hai
    rw [Function.update_self] at h
    rcases hx with rfl | ⟨k',rfl⟩
    · cases h
    · exact .inl ⟨k',(Option.some.inj h).symm⟩
  · rw [Function.update_of_ne hai] at h
    exact .inr ⟨hai,h⟩

/-- A role that no task gives up by ending is kept by everyone but the acting
task, and by that one as far as its own step keeps it. -/
theorem role_kept {c c' : Core} {g' : Phases} {l : ServerLabel}
    (rests : RestsIdle role)
    (final : ∀ k q k', phaseFinal k q k' → role (k,q) = none)
    (claimed : ∀ w, role (.queue,.claimed w) = none) (hs : PhaseStep config c g l c' g')
    (ha : roleAt g role a = some v)
    (own : ∀ k q q' o r, l = .act a k o r → CoreStep config k q c o q' c' →
      role (k,q) = some v → role (k,q') = some v) : roleAt g' role a = some v := by
  obtain ⟨t,ht,hv⟩ := roleAt_eq_some.mp ha
  cases hs with
  | turn hx hg hl =>
    rename_i i x
    have hne : a ≠ i := by
      rintro rfl
      rcases hg with hg | ⟨k,q,k',hg,hf⟩
      · rw [hg] at ht
        cases ht
      · rw [hg] at ht
        cases ht
        rw [final k q k' hf] at hv
        cases hv
    rw [roleAt_update,Function.update_of_ne hne]
    exact ha
  | spawn hg free =>
    rename_i i j w r
    have hi : a ≠ i := by
      rintro rfl
      rw [hg] at ht
      cases ht
      rw [claimed w] at hv
      cases hv
    have hj : a ≠ j := by
      rintro rfl
      rw [free] at ht
      cases ht
    rw [roleAt_update,roleAt_update,Function.update_of_ne hj,Function.update_of_ne hi]
    exact ha
  | act hg hs free hx =>
    rename_i i j k q q' o r x
    rw [roleAt_act rests hg free hx]
    by_cases hai : a = i
    · subst hai
      rw [hg] at ht
      cases ht
      rw [Function.update_self]
      exact own k q q' o r rfl hs hv
    · rw [Function.update_of_ne hai]
      exact ha

end

/-- Workorders are filed under their identifiers, which are not issued again. -/
def Filed (t : Table WorkorderId Workorder) (issued : List Uuid) : Prop :=
  ∀ id w, t.lookup id = some w → w.id = id ∧ id ∈ issued

def WellFiled (disk : Persisted) (issued : List Uuid) : Prop :=
  Filed (disk.workorders.getD ∅) issued

inductive Started (env : Codecs) (config : ServerConfig) : ServerPool → Prop where
  | intro (now : Time) (store : StoredEntries) (disk : Persisted) (issued : List Uuid)
      (h : WellFiled disk issued) :
      Started env config (startPool env config (boot config now store disk issued))

def emptyDisk : Persisted := ⟨none,none,none⟩

def freshPool (env : Codecs) (config : ServerConfig) : ServerPool :=
  startPool env config (boot config 0 ∅ emptyDisk [])

theorem started_fresh (env : Codecs) (config : ServerConfig) :
    Started env config (freshPool env config) :=
  .intro 0 ∅ emptyDisk [] fun _ _ h => by cases h

theorem freshPool_none {i : ℕ} (h : 10 ≤ i) : (freshPool env config).tasks i = none := by
  obtain ⟨n,rfl⟩ := Nat.exists_eq_add_of_le' h
  rfl

def startPhases : Phases := fun i => (backgroundKind i).map fun k => (k,.asking)

theorem startPhases_idle (i : ℕ) : Idle (startPhases i) := by
  unfold startPhases
  cases backgroundKind i with
  | none => exact .inl rfl
  | some k => exact .inr ⟨k,rfl⟩

theorem tracks_start (env : Codecs) (config : ServerConfig) (s : Server) :
    Tracks (phases config) (startPool env config s) startPhases := by
  refine tracks_background (phases_obeyed env config) s fun i => ?_
  match i with
  | 0 | 1 | 2 | n+3 => rfl

theorem lookup_loadWorkorders {now : Time} {disk : Persisted} {id : WorkorderId} {w : Workorder}
    (h : (loadWorkorders now disk).lookup id = some w) :
    ∃ v, (disk.workorders.getD ∅).lookup id = some v ∧ w = resetInFlight now v := by
  unfold loadWorkorders at h
  rw [AList.lookup_mapValues] at h
  obtain ⟨v,hv,rfl⟩ := Option.map_eq_some_iff.mp h
  exact ⟨v,hv,rfl⟩

theorem resetInFlight_fields (now : Time) (v : Workorder) :
    (resetInFlight now v).id = v.id ∧ (resetInFlight now v).clientId = v.clientId ∧
      (resetInFlight now v).status ≠ .provisioning ∧
      (resetInFlight now v).status ≠ .building := by
  unfold resetInFlight
  split
  · simp [writeStatus]
  · next h => exact ⟨rfl,rfl,fun e => h (.inl e),fun e => h (.inr e)⟩

def sampleRequest (client : ClientId) : SubmitRequest :=
  ⟨client,.main,["dev-lang/rust"],[],.default,"portage","system","image",none⟩

/-- Task `i` performs its next `n` operations; what it spawns becomes task `j`,
and an identifier it draws or looks up is `id`. -/
def acts (n i j : ℕ) (id : Uuid) : List (Move TaskKind ServerOracle) :=
  List.replicate n (.act i j { uuid := id })

def anyStep : Server → (ℕ → Option TaskKind) → ServerLabel → Bool := fun _ _ _ => true

theorem anyStep_unrestricted (s : Server) (kinds : ℕ → Option TaskKind) (l : ServerLabel)
    (_ : anyStep s kinds l) : (unrestricted : ServerCondition) s kinds l := trivial

end Remerge.ServerCore
