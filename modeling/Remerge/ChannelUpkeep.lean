import Remerge.ServiceStages
import Remerge.StatusLifecycle

/-!
# Upkeep of the runtime channels

The channels of a workorder are made by its submit and taken down by its
processor or by eviction. What each task may rely on is a fact about its own
workorder; it is kept because no two tasks work on the same one. All of this
holds in every run, whatever is cancelled and evicted when.
-/

set_option autoImplicit false

namespace Remerge.ChannelUpkeep
open StepProgram Interleaving SnapshotTypes SnapshotStore SnapshotRuntime SnapshotCleanup
open ServerState ServerOps ServerTasks ServerPhases ServerCore WorkorderIdentity StatusLifecycle
open ServiceStages

variable {config : ServerConfig} {l : ServerLabel} {id : WorkorderId} {o : ServerOp} {ph : Phase}
  {st : Stage} {env : Codecs} {w : ServerOracle} {s s' : Server} {r : ServerRes o} {k : TaskKind}
  {q : Phase × Post} {i : ℕ}

section
variable {c c' : Core} {g g' : Phases}

structure Held (c : Core) (g : Phases) : Prop where
  once : Exclusive (roleAt g owns)
  claimed : ∀ a id, roleAt g owns a = some id → c.statusOf id ≠ some .pending

theorem mentions_of_owner {a : ℕ} (h : roleAt g owns a = some id) :
    roleAt g mentions a = some id := by
  obtain ⟨t,hg,ho⟩ := roleAt_eq_some.mp h
  exact roleAt_eq_some.mpr ⟨t,hg,mentions_of_owns ho⟩

theorem pending_step {q q' : Phase} (hs : CoreStep config k q c o q' c')
    (h : c'.statusOf id = some .pending) :
    c.statusOf id = some .pending ∨ ∃ w, o = .insertWorkorder w ∧ w.id = id := by
  have hst := statusStep_of_core hs id
  rw [h] at hst
  generalize c.statusOf id = before at hst
  cases hst with
  | same => exact .inl rfl
  | insert e => exact .inr ⟨_,rfl,e⟩
  | write => cases hs with
    | plain hn => cases hn
    | finish _ ht => cases ht

theorem held_step (hi : Identity c g) (h : Held c g) (hs : PhaseStep config c g l c' g') :
    Held c' g' := by
  cases hs with
  | turn hx hg hl =>
    exact ⟨h.once.mono fun _ _ ha => held_turn owns_rests hx ha,
      fun a id ha => h.claimed a id (held_turn owns_rests hx ha)⟩
  | spawn ht free =>
    rename_i i j w r
    refine ⟨owns_once_spawn h.once ht,fun a id ha => ?_⟩
    rcases held_spawn rfl ha with ⟨-,e⟩ | ⟨-,-,e⟩
    · exact h.claimed i id ((roleAt_some ht owns).trans e)
    · exact h.claimed a id e
  | act ht hs free hx =>
    rename_i i j k q q' o r x
    refine ⟨owns_once_act h.once h.claimed ht hs free hx,fun a id ha hp => ?_⟩
    -- An owner before the step is still not facing a pending workorder.
    have before : ∀ b, roleAt g owns b = some id → False := by
      intro b hb
      rcases pending_step hs hp with e | ⟨w,rfl,rfl⟩
      · exact h.claimed b id hb e
      · cases hs with
        | plain hn => cases hn
        | insert _ _ =>
          exact (hi.reserved i _ (roleAt_some ht reserves)).2.2 b (mentions_of_owner hb)
    rcases held_act owns_rests ht free hx ha with ⟨rfl,e⟩ | ⟨-,e⟩
    · by_cases kept : owns (k,q) = some id
      · exact before a ((roleAt_some ht owns).trans kept)
      · cases hs with
        | claimHit hl hpend =>
          cases e
          rw [statusOf_insert,if_pos rfl] at hp
          cases hp
        | plain _ => exact kept e
        | finish hq _ => rcases hq with rfl | rfl <;> exact kept e
        | _ => first | exact kept e | cases e
    · exact before a e

theorem held_start {P : ServerPool} (_ : Started env config P) :
    Held (core P.shared) startPhases := by
  refine ⟨fun a b v ha => ?_,fun a id ha => ?_⟩
  · rw [startPhases_role owns_rests] at ha
    cases ha
  · rw [startPhases_role owns_rests] at ha
    cases ha

end

def Link : TaskKind → Phase → Stage → Prop
  | .submit _, ph, .named id => ph = .named id ∨ ph = .locked id ∨ ph = .room id
  | .submit _, ph, .admitted id => ph = .admitted id
  | .submit _, ph, .raw id => ph = .admitted id
  | .submit _, ph, .made id => ph = .admitted id
  | .queue, ph, .found w => ph = .found w
  | .queue, ph, .took w => ph = .claimed w
  | .queue, ph, .waiting w => ph = .claimed w
  | .process _, ph, _ => ph ≠ .asking
  | _, _, _ => True

theorem link_init (k : TaskKind) : Link k (phaseInit k) .fresh := by
  cases k with
  | process w => exact fun e => nomatch e
  | _ => trivial

theorem phaseNext_ne_asking {q : Phase} (r : ServerRes o) (h : q ≠ .asking) :
    phaseNext config q o r ≠ .asking := by
  have count : ∀ n, q.afterCount config n ≠ .asking := by
    intro n
    cases q with
    | locked id =>
      change (if _ then _ else _) ≠ _
      split <;> simp
    | _ => exact h
  have update : q.afterUpdate ≠ .asking := by cases q <;> simp_all [Phase.afterUpdate]
  have claim : q.afterClaim ≠ .asking := by cases q <;> simp_all [Phase.afterClaim]
  unfold phaseNext
  split
  all_goals first | exact h | exact update | exact claim | exact count _ | (split <;> simp_all) | simp

theorem link_submit {req : SubmitRequest} (h : Link (.submit req) ph st)
    (ha : Allowed config (.submit req) ph o) (hs : Serves (.submit req) st o) (r : ServerRes o) :
    Link (.submit req) (phaseNext config ph o r) (stageNext config st o r) := by
  cases hs with
  | plain hn _ =>
    rw [stageNext_plain st o r hn]
    cases ha with
    | plain hc =>
      rw [phaseNext_plain ph o r hc]
      exact h
    | lock => cases st <;> simp_all [Link,phaseNext]
    | setActive | unlock => cases st <;> simp_all [Link]
    | _ => cases hn
  | newId => exact .inl rfl
  | count =>
    cases ha with
    | plain hc => cases hc
    | count _ =>
      rcases h with h | h | h <;> cases h
      change Link _ (if r < _ then _ else _) (if r < _ then _ else _)
      split
      · exact .inr (.inr rfl)
      · trivial
  | update =>
    cases ha with
    | plain hc => cases hc
    | unlimited _ | update =>
      rcases h with h | h | h <;> cases h
      cases r <;> trivial
  | makeRaw | makeProgress =>
    cases ha with
    | plain _ => exact h
  | list | listedActive | listedUnlock | listedAdd | enqueue => trivial

theorem link_queue (h : Link .queue ph st) (ha : Allowed config .queue ph o)
    (hs : Serves .queue st o) (r : ServerRes o) :
    Link .queue (phaseNext config ph o r) (stageNext config st o r) := by
  cases hs with
  | plain hn _ =>
    rw [stageNext_plain st o r hn]
    cases ha with
    | plain hc =>
      rw [phaseNext_plain ph o r hc]
      exact h
    | _ => cases hn
  | find => cases r <;> trivial
  | claim =>
    cases h
    cases r <;> trivial
  | dequeue =>
    cases ha with
    | plain _ => exact h
  | waitingLook | waitingSend _ | waitingPermit =>
    cases ha with
    | plain _ => exact h
  | spawn => trivial

theorem link_next (h : Link k ph st) (ha : Allowed config k ph o) (hs : Serves k st o)
    (r : ServerRes o) : Link k (phaseNext config ph o r) (stageNext config st o r) := by
  cases k with
  | submit req => exact link_submit h ha hs r
  | process w => exact phaseNext_ne_asking r h
  | queue => exact link_queue h ha hs r
  | _ => trivial

/-- What the tables hold under one identifier. -/
structure View where
  progress : Bool
  raw : Bool
  stdin : Bool
  container : Bool
  listed : Bool
  deriving DecidableEq, Repr

def view (s : Server) (id : WorkorderId) : View :=
  ⟨(s.progressTxs.lookup id).isSome,(s.rawOutputTxs.lookup id).isSome,
    (s.stdinTxs.lookup id).isSome,(s.containerIds.lookup id).isSome,
    (s.workorders.lookup id).isSome⟩

def View.bare : View := ⟨false,false,false,false,false⟩

def View.ready : View := ⟨true,true,false,false,true⟩

def touched : ServerOp → Option WorkorderId
  | .insertRaw id | .insertProgress id | .insertStdin id | .removeRaw id | .removeProgress id
  | .removeStdin id | .insertContainerId id _ | .removeContainerId id => some id
  | .insertWorkorder w => some w.id
  | _ => none

def touch (v : View) : ServerOp → View
  | .insertRaw _ => { v with raw := true }
  | .insertProgress _ => { v with progress := true }
  | .insertStdin _ => { v with stdin := true }
  | .removeRaw _ => { v with raw := false }
  | .removeProgress _ => { v with progress := false }
  | .removeStdin _ => { v with stdin := false }
  | .insertContainerId _ _ => { v with container := true }
  | .removeContainerId _ => { v with container := false }
  | .insertWorkorder _ => { v with listed := true }
  | _ => v

theorem isSome_claim (now : Time) (id id' : WorkorderId) (t : Table WorkorderId Workorder) :
    ((claimWorkorder now id t).1.lookup id').isSome = (t.lookup id').isSome := by
  unfold claimWorkorder
  split
  · next v hv =>
    split
    · rw [AList.lookup_insert_ite]
      split
      · next e => rw [e,hv]; rfl
      · rfl
    · rfl
  · rfl

theorem isSome_cancel (id id' : WorkorderId) (t : Table WorkorderId Workorder) :
    ((cancelStatus id t).1.lookup id').isSome = (t.lookup id').isSome := by
  unfold cancelStatus
  split
  · rfl
  · next v hv =>
    split
    · rw [AList.lookup_insert_ite]
      split
      · next e => rw [e,hv]; rfl
      · rfl
    · rfl

theorem isSome_modify (id id' : WorkorderId) (f : Workorder → Workorder)
    (t : Table WorkorderId Workorder) :
    ((t.modify id f).lookup id').isSome = (t.lookup id').isSome := by
  rw [AList.lookup_modify]
  split
  · next e => rw [e,Option.isSome_map]
  · rfl

variable {ν : Type} {P : ServerPool}

theorem isSome_insert (t : Table WorkorderId ν) (a id : WorkorderId) (v : ν) :
    ((t.insert a v).lookup id).isSome =
      if some a = some id then true else (t.lookup id).isSome := by
  rw [AList.lookup_insert_ite]
  by_cases h : id = a
  · simp [h]
  · simp [h,Ne.symm h]

theorem isSome_erase (t : Table WorkorderId ν) (a id : WorkorderId) :
    ((t.erase a).lookup id).isSome = if some a = some id then false else (t.lookup id).isSome := by
  rw [AList.lookup_erase_ite]
  by_cases h : id = a
  · simp [h]
  · simp [h,Ne.symm h]

theorem view_evictIds (ids : List WorkorderId) (id : WorkorderId) :
    view (s.evictIds ids) id = if id ∈ ids then .bare else view s id := by
  unfold view Server.evictIds
  simp only [lookup_without]
  split <;> rfl

def evictedIds (config : ServerConfig) (cutoff : Time) (s : Server) : List WorkorderId :=
  staleIds cutoff s.workorders ++
    excessIds config.maxRetainedWorkorders (s.evictIds (staleIds cutoff s.workorders)).workorders

theorem evictedIds_terminal {cutoff : Time} (h : id ∈ evictedIds config cutoff s) :
    ∃ st, s.statusOf id = some st ∧ st.terminal := by
  rcases List.mem_append.mp h with h | h
  · obtain ⟨v,hv,ht⟩ := staleIds_terminal cutoff s.workorders id h
    exact ⟨v.status,statusOf_of_lookup (c := core s) hv,ht⟩
  · obtain ⟨v,hv,ht⟩ := excessIds_terminal _ _ id h
    change (without _ s.workorders).lookup id = some v at hv
    rw [lookup_without] at hv
    split at hv
    · cases hv
    · exact ⟨v.status,statusOf_of_lookup (c := core s) hv,ht⟩

theorem view_evicted (cutoff : Time) (id : WorkorderId) :
    view (evictWorkorders config cutoff s).1 id =
      if id ∈ evictedIds config cutoff s then .bare else view s id := by
  change view (Server.evictIds (s.evictIds _) _) id = _
  rw [view_evictIds,view_evictIds,evictedIds]
  by_cases h : id ∈ staleIds cutoff s.workorders <;> simp [h]

theorem results_evicted (cutoff : Time) (id : WorkorderId) :
    (evictWorkorders config cutoff s).1.results.lookup id =
      if id ∈ evictedIds config cutoff s then none else s.results.lookup id := by
  change (without _ (without _ s.results)).lookup id = _
  rw [lookup_without,lookup_without,evictedIds]
  by_cases h : id ∈ staleIds cutoff s.workorders <;> simp [h]

/-- An operation changes what it touches; only eviction reaches further. -/
theorem view_of_sem (id : WorkorderId) (hs : serverSem env config o w s = some (s',r)) :
    view s' id = (if touched o = some id then touch (view s id) o else view s id) ∨
      (o = .evict ∧ view s' id = .bare ∧ ∃ st, s.statusOf id = some st ∧ st.terminal) := by
  rw [effect_of_sem env config hs]
  cases o with
  | evict =>
    simp only [effect]
    split
    · rw [view_evicted]
      split
      · next hid => exact .inr ⟨trivial,rfl,evictedIds_terminal hid⟩
      · exact .inl rfl
    · exact .inl rfl
  | insertRaw _ | insertProgress _ | insertStdin _ | insertContainerId _ _ | insertWorkorder _ =>
    left
    simp only [effect,view,isSome_insert,touched,touch]
    split <;> simp_all
  | removeRaw _ | removeProgress _ | removeStdin _ | removeContainerId _ =>
    left
    simp only [effect,view,isSome_erase,touched,touch]
    split <;> simp_all
  | claim _ | cancel _ | setStatus _ _ =>
    left
    simp [effect,view,isSome_claim,isSome_cancel,isSome_modify,touched]
  | _ => exact .inl rfl

theorem view_touched (hs : serverSem env config o w s = some (s',r)) (ht : touched o = some id) :
    view s' id = touch (view s id) o := by
  rcases view_of_sem id hs with e | ⟨rfl,-⟩
  · rw [e,if_pos ht]
  · cases ht

theorem view_frame (hs : serverSem env config o w s = some (s',r)) (ht : touched o ≠ some id) :
    view s' id = view s id ∨
      (o = .evict ∧ view s' id = .bare ∧ ∃ st, s.statusOf id = some st ∧ st.terminal) := by
  have h := view_of_sem id hs
  rwa [if_neg ht] at h

abbrev service (config : ServerConfig) : Discipline TaskKind ServerOp ServerRes (Phase × Post) :=
  (phases config).both (stages config)

abbrev Services : Type := Ghost TaskKind (Phase × Post)

abbrev ServiceStep (env : Codecs) (config : ServerConfig) :=
  GhostStep (serverSystem env config) (service config)

def subject : TaskKind × Stage → Option WorkorderId
  | (.submit _,.named id) | (.submit _,.admitted id) | (.submit _,.raw id)
  | (.submit _,.made id) => some id
  | (.queue,.took w) | (.queue,.waiting w) => some w.id
  | (.process _,.over) => none
  | (.process w,_) => some w.id
  | _ => none

/-- What a task finds under its subject. -/
def Fit (v : View) : TaskKind × Stage → Prop
  | (.submit _,.named _) | (.submit _,.admitted _) => v = .bare
  | (.submit _,.raw _) => v = { View.bare with raw := true }
  | (.submit _,.made _) => v = { View.bare with raw := true, progress := true }
  | (.queue,.took _) | (.queue,.waiting _) | (.process _,.fresh) | (.process _,.watched) =>
    v = .ready ∨ v = .bare
  | (.process _,.started) => v.progress = v.listed ∧ v.raw = v.listed ∧ v.stdin = false
  | (.process _,.closing) => v.progress = false
  | (.process _,.closed) => v.progress = false ∧ v.raw = false
  | _ => True

structure Upkeep (s : Server) (g : Services) : Prop where
  identity : Identity (core s) g.first
  held : Held (core s) g.first
  link : ∀ i k q, g i = some (k,q) → Link k q.1 q.2.stage
  fit : ∀ i k q id, g i = some (k,q) → subject (k,q.2.stage) = some id →
    Fit (view s id) (k,q.2.stage)
  pending : ∀ id, s.statusOf id = some .pending → view s id = .ready
  unknown : ∀ id, id ∉ s.issued → view s id = .bare

section
variable {g : Services}
theorem touched_service (h : touched o = some id) : isService o := by
  cases o <;> first | rfl | cases h

theorem touched_subject (hs : Serves k st o) (h : touched o = some id) :
    subject (k,st) = some id := by
  cases hs with
  | plain hn _ =>
    rw [touched_service h] at hn
    cases hn
  | forget hq | close hq => rcases hq with rfl | rfl <;> exact h
  | _ => first | exact h | cases h

variable {a : ℕ} {k' : TaskKind} {q' : Phase × Post} {v : Workorder} {t : TaskKind × Stage}

theorem owns_process (h : ph ≠ .asking) (v : Workorder) : owns (.process v,ph) = some v.id := by
  cases ph with
  | asking => exact absurd rfl h
  | _ => rfl

theorem subject_role (hl : Link k ph st) (h : subject (k,st) = some id) :
    reserves (k,ph) = some id ∨ owns (k,ph) = some id := by
  cases k with
  | submit req =>
    left
    cases st with
    | named _ =>
      cases h
      rcases hl with rfl | rfl | rfl <;> rfl
    | admitted _ | raw _ | made _ =>
      cases h
      cases hl
      rfl
    | _ => cases h
  | queue =>
    right
    cases st with
    | took _ | waiting _ =>
      cases h
      cases hl
      rfl
    | _ => cases h
  | process v =>
    right
    have hv : v.id = id := by cases st <;> first | exact Option.some.inj h | cases h
    rw [← hv]
    exact owns_process hl v
  | _ => cases h

theorem Upkeep.role (hU : Upkeep s g) (ht : g i = some (k,q))
    (h : subject (k,q.2.stage) = some id) :
    roleAt g.first reserves i = some id ∨ roleAt g.first owns i = some id := by
  rcases subject_role (hU.link i k q ht) h with e | e
  · exact .inl ((roleAt_some (first_some ht) reserves).trans e)
  · exact .inr ((roleAt_some (first_some ht) owns).trans e)

theorem Upkeep.subject_once (hU : Upkeep s g) (ht : g i = some (k,q)) (ht' : g a = some (k',q'))
    (h : subject (k,q.2.stage) = some id) (h' : subject (k',q'.2.stage) = some id) : i = a := by
  rcases hU.role ht h with e | e <;> rcases hU.role ht' h' with e' | e'
  · exact hU.identity.once i a id e e'
  · exact absurd (mentions_of_owner e') ((hU.identity.reserved i id e).2.2 a)
  · exact absurd (mentions_of_owner e) ((hU.identity.reserved a id e').2.2 i)
  · exact hU.held.once i a id e e'

theorem Upkeep.owns_process (hU : Upkeep s g) (ht : g i = some (.process v,q)) :
    roleAt g.first owns i = some v.id :=
  (roleAt_some (first_some ht) owns).trans (ChannelUpkeep.owns_process (hU.link i _ q ht) v)

theorem Upkeep.owner_once (hU : Upkeep s g) (ht : g i = some (k,q))
    (h : subject (k,q.2.stage) = some v.id) (ha : g a = some (.process v,q')) : a = i := by
  rcases hU.role ht h with e | e
  · exact absurd (mentions_of_owner (hU.owns_process ha)) ((hU.identity.reserved i v.id e).2.2 a)
  · exact hU.held.once a i v.id (hU.owns_process ha) e

theorem Upkeep.subject_issued (hU : Upkeep s g) (ht : g i = some (k,q))
    (h : subject (k,q.2.stage) = some id) : id ∈ s.issued := by
  rcases hU.role ht h with e | e
  · exact (hU.identity.reserved i id e).1
  · exact hU.identity.known i id (mentions_of_owner e)

theorem Upkeep.subject_not_pending (hU : Upkeep s g) (ht : g i = some (k,q))
    (h : subject (k,q.2.stage) = some id) : s.statusOf id ≠ some .pending := by
  rcases hU.role ht h with e | e
  · have hn : s.workorders.lookup id = none := (hU.identity.reserved i id e).2.1
    simp [Server.statusOf,hn]
  · exact hU.held.claimed i id e

theorem fit_bare {v : View} (h : Fit v t) (hv : v.listed) : Fit .bare t := by
  obtain ⟨k,st⟩ := t
  cases k with
  | submit req =>
    cases st <;> first | trivial | (cases h; cases hv)
  | queue | process w => cases st <;> first | trivial | exact .inr rfl
  | _ => trivial

theorem listed_of_status {st : WorkorderStatus} (h : s.statusOf id = some st) :
    (view s id).listed := by
  obtain ⟨v,hv,-⟩ := Option.map_eq_some_iff.mp h
  simp [view,hv]

theorem status_of_listed (h : (view s id).listed) : ∃ st, s.statusOf id = some st := by
  obtain ⟨v,hv⟩ := Option.isSome_iff_exists.mp h
  exact ⟨v.status,by simp [Server.statusOf,hv]⟩

theorem fit_frame (hs : serverSem env config o w s = some (s',r)) (ht : touched o ≠ some id)
    (h : Fit (view s id) t) : Fit (view s' id) t := by
  rcases view_frame hs ht with e | ⟨-,e,st,hst,-⟩
  · rwa [e]
  · rw [e]
    exact fit_bare h (listed_of_status hst)

theorem pending_of_claim (hs : serverSem env config (.claim id) w s = some (s',true)) :
    s.statusOf id = some .pending := by
  have hc := (Prod.mk.inj (of_exclusive hs)).2
  unfold claimWorkorder at hc
  split at hc
  · next v hv =>
    split at hc
    · next hp => simp [Server.statusOf,hv,hp]
    · cases hc
  · cases hc

theorem status_of_claim (hs : serverSem env config (.claim id) w s = some (s',true)) :
    s'.statusOf id = some .provisioning := by
  obtain ⟨v,hv,hp⟩ := Option.map_eq_some_iff.mp (pending_of_claim hs)
  obtain ⟨rfl,-⟩ := Prod.mk.inj (of_exclusive hs)
  simp [Server.statusOf,claimWorkorder,hv,hp,writeStatus]

theorem unclaimed {r : ServerRes (.claim id)}
    (hs : serverSem env config (.claim id) w s = some (s',r)) (h : r = false) : s' = s := by
  subst h
  obtain ⟨rfl,hc⟩ := Prod.mk.inj (of_exclusive hs)
  have same : (claimWorkorder w.time id s.workorders).1 = s.workorders := by
    unfold claimWorkorder at hc ⊢
    split at hc
    · split at hc
      · cases hc
      · next hp => simp [hp]
    · simp
  rw [same]

theorem pending_of_insert {r : ServerRes (.insertWorkorder v)}
    (ha : Allowed config k ph (.insertWorkorder v))
    (hs : serverSem env config (.insertWorkorder v) w s = some (s',r)) :
    s'.statusOf v.id = some .pending := by
  cases of_exclusive hs
  cases ha with
  | plain hn => cases hn
  | insert _ hp => simp [Server.statusOf,hp]

theorem Upkeep.fit_next (hU : Upkeep s g)
    (hf : ∀ id, subject (k,st) = some id → Fit (view s id) (k,st)) (ha : Serves k st o)
    (hs : serverSem env config o w s = some (s',r))
    (h : subject (k,stageNext config st o r) = some id) :
    Fit (view s' id) (k,stageNext config st o r) := by
  have same : touched o = none → ∀ t, Fit (view s id) t → Fit (view s' id) t :=
    fun hn t => fit_frame hs (by rw [hn]; exact nofun)
  cases ha with
  | plain hn _ =>
    rw [stageNext_plain st o r hn] at h ⊢
    refine fit_frame hs (fun ht => ?_) (hf id h)
    rw [touched_service ht] at hn
    cases hn
  | newId =>
    cases h
    simp only [serverSem,Option.ite_none_left_eq_some] at hs
    obtain ⟨fresh,he⟩ := hs
    cases he
    exact hU.unknown _ fresh
  | count =>
    by_cases hn : r < config.maxActiveWorkorders
    · have he : ∀ v, stageNext config (.named v) .countActive r = .named v := fun v => if_pos hn
      rw [he] at h ⊢
      exact same rfl _ (hf id h)
    · have he : ∀ v, stageNext config (.named v) .countActive r = .over := fun v => if_neg hn
      rw [he] at h
      cases h
  | update =>
    cases r with
    | ok _ => exact same rfl (_,.named _) (hf id h)
    | error _ => cases h
  | makeRaw | makeProgress =>
    cases h
    have hv := hf _ rfl
    rw [view_touched hs rfl]
    change touch _ _ = _
    rw [hv]
    rfl
  | claim =>
    cases r with
    | true =>
      cases h
      exact same rfl (.queue,.took _) (.inl (hU.pending _ (pending_of_claim hs)))
    | false => cases h
  | dequeue => exact same rfl (_,.took _) (hf id h)
  | waitingLook | waitingSend _ | waitingPermit => exact same rfl _ (hf id h)
  | watch =>
    cases r with
    | true => exact same rfl (_,.fresh) (hf id h)
    | false => cases h
  | build => exact same rfl _ (hf id h)
  | attach =>
    cases h
    rw [view_touched hs rfl]
    rcases hf _ rfl with hv | hv <;> rw [hv] <;> exact ⟨rfl,rfl,rfl⟩
  | close hq =>
    rcases hq with rfl | rfl <;> cases h <;> rw [view_touched hs rfl] <;> rfl
  | closeRaw =>
    cases h
    rw [view_touched hs rfl]
    exact ⟨hf _ rfl,rfl⟩
  | fail ht | finish ht =>
    rw [stageNext_terminal _ _ ht]
    trivial
  | forget hq => rcases hq with rfl | rfl <;> trivial
  | _ => first | trivial | cases h | (cases r <;> trivial)

def writesStatus : ServerOp → Bool
  | .setStatus _ _ | .insertWorkorder _ => true
  | _ => false

theorem setStatus_subject {x : WorkorderStatus} (hs : Serves k st (.setStatus id x)) :
    subject (k,st) = some id := by
  cases hs with
  | plain hn _ => cases hn
  | build => rfl
  | fail _ => rfl
  | finish _ => rfl

inductive Imposed (o : ServerOp) : Option WorkorderStatus → Option WorkorderStatus → Prop where
  | same {x : Option WorkorderStatus} : Imposed o x x
  | cancelled {st : WorkorderStatus} (h : st.active) (hp : st ≠ .pending) :
      Imposed o (some st) (some .cancelled)
  | evicted {st : WorkorderStatus} (he : o = .evict) (h : st.terminal) :
      Imposed o (some st) none

theorem Upkeep.imposed (hU : Upkeep s g) (ht : g i = some (k,q))
    (ha : ((service config).monitor k).allows q o) (hs : serverSem env config o w s = some (s',r))
    (ht' : g a = some (k',q')) (h : subject (k',q'.2.stage) = some id)
    (other : a = i → writesStatus o = false) : Imposed o (s.statusOf id) (s'.statusOf id) := by
  have hst := statusStep_of_core (coreStep_of_sem ha.1 hs) id
  have hp := hU.subject_not_pending ht' h
  change StatusStep id o (s.statusOf id) (s'.statusOf id) at hst
  generalize s.statusOf id = before at hst hp
  generalize s'.statusOf id = after at hst
  cases hst with
  | same => exact .same
  | insert e =>
    have hn := other (hU.subject_once ht' ht h (touched_subject ha.2.1 (congrArg some e)))
    cases hn
  | claim => exact absurd rfl hp
  | cancel hactive => exact .cancelled hactive fun e => hp (congrArg some e)
  | write =>
    have hn := other (hU.subject_once ht' ht h (setStatus_subject ha.2.1))
    cases hn
  | evict hterm => exact .evicted rfl hterm

theorem subject_init (h : subject (k,.fresh) = some id) : ∃ w, k = .process w ∧ w.id = id := by
  cases k with
  | process w => exact ⟨w,rfl,Option.some.inj h⟩
  | _ => cases h

end

section
variable {g g' : Services}

theorem service_acted (h : ServiceStep env config s g (.act i k o r) s' g') :
    ∃ q w, g i = some (k,q) ∧ ((service config).monitor k).allows q o ∧
      serverSem env config o w s = some (s',r) ∧
      (∃ q', g' i = some (k,q') ∧ q'.2.stage = stageNext config q.2.stage o r) ∧
      ∀ v, o = .spawnProcess v → ∃ j q', g' j = some (.process v,q') ∧ q'.2.stage = .fresh := by
  obtain ⟨q,w,ht,allowed,hs,hi,spawned⟩ := h.acted
  refine ⟨q,w,ht,allowed,hs,⟨_,hi,rfl⟩,?_⟩
  rintro v rfl
  obtain ⟨j,hj⟩ := spawned (.process v) rfl
  exact ⟨j,_,hj,rfl⟩

section
variable {Q : Type} {D : Discipline TaskKind ServerOp ServerRes Q} {b b' : Ghost TaskKind Q}

/-- What is said of every task is kept if the acting task keeps it for itself,
for a processor it spawns, and for everyone else. -/
theorem tasks_kept (turns : ∀ k q k', D.final k q (some k') → phaseInit k' = .asking)
    (F : Server → TaskKind × Q → Prop) (h : GhostStep (serverSystem env config) D s b l s' b')
    (before : ∀ i t, b i = some t → F s t)
    (idle : ∀ k, phaseInit k = .asking → F s' (D.task k))
    (acts : ∀ i k q o r w, b i = some (k,q) → (D.monitor k).allows q o →
      serverSem env config o w s = some (s',r) → l = .act i k o r →
      F s' (k,(D.monitor k).next q o r) ∧
        (∀ v, taskSpawns o = some (.process v) → F s' (D.task (.process v))) ∧
        ∀ a t, a ≠ i → b a = some t → F s' t) :
    ∀ i t, b' i = some t → F s' t := by
  intro a t ha
  cases h with
  | start hk free =>
    rename_i k j
    rcases update_some ha with ⟨-,e⟩ | ⟨-,e⟩
    · cases e
      refine idle k ?_
      cases k <;> first | rfl | cases hk
    · exact before a t e
  | next ht ends =>
    rcases update_some ha with ⟨-,e⟩ | ⟨-,e⟩
    · obtain ⟨k1,rfl,rfl⟩ := Option.map_eq_some_iff.mp e
      exact idle k1 (turns _ _ k1 ends)
    · exact before a t e
  | act ht allowed hs free =>
    rename_i i j k q o r w
    obtain ⟨own,spawned,others⟩ := acts i k q o r w ht allowed hs rfl
    have hj : Function.update b i (some (k,(D.monitor k).next q o r)) j = none := by
      have hne : j ≠ i := fun e => by simp [e,ht] at free
      rw [Function.update_of_ne hne]
      exact free
    rw [Discipline.spawn_eq _ _ _ hj] at ha
    rcases update_some ha with ⟨-,e⟩ | ⟨-,ha⟩
    · obtain ⟨k1,hk,rfl⟩ := Option.map_eq_some_iff.mp e
      cases o with
      | spawnProcess v =>
        cases hk
        exact spawned v rfl
      | spawnCleanup =>
        cases hk
        exact idle .cleanup rfl
      | _ => cases hk
    · rcases update_some ha with ⟨-,e⟩ | ⟨hne,e⟩
      · cases e
        exact own
      · exact others a t hne e

end

theorem service_turns (k : TaskKind) (q : Phase × Post) (k' : TaskKind)
    (h : (service config).final k q (some k')) : phaseInit k' = .asking := by
  rcases idle_next h.1 config with e | ⟨k2,e⟩
  · cases e
  · exact congrArg Prod.snd (Option.some.inj e)

theorem fit_spawned {v : Workorder} (hU : Upkeep s g) (ht : g i = some (k,q))
    (ha : Serves k q.2.stage o) (hs : serverSem env config o w s = some (s',r))
    (hv : taskSpawns o = some (.process v)) : Fit (view s' v.id) (.process v,.fresh) := by
  cases o with
  | spawnProcess u =>
    cases hv
    cases hs
    have hf := hU.fit i k q v.id ht
    generalize q.2.stage = st at ha hf
    cases ha with
    | plain hn _ => cases hn
    | spawn => exact hf rfl
  | _ => cases hv

theorem pending_kept (hU : Upkeep s g) (ht : g i = some (k,q))
    (ha : ((service config).monitor k).allows q o) (hs : serverSem env config o w s = some (s',r))
    (h : s'.statusOf id = some .pending) : view s' id = .ready := by
  rcases pending_step (coreStep_of_sem ha.1 hs) h with hp | ⟨v,rfl,rfl⟩
  · have untouched : touched o ≠ some id := fun e =>
      hU.subject_not_pending ht (touched_subject ha.2.1 e) hp
    rcases view_frame hs untouched with e | ⟨-,e,-⟩
    · exact e.trans (hU.pending id hp)
    · have hl := listed_of_status h
      rw [e] at hl
      cases hl
  · have hf := hU.fit i k q v.id ht (touched_subject ha.2.1 rfl)
    rw [view_touched hs rfl]
    have hserves := ha.2.1
    generalize q.2.stage = st at hserves hf
    cases hserves with
    | plain hn _ => cases hn
    | list =>
      change touch _ _ = _
      rw [show view s v.id = _ from hf]
      rfl

theorem unknown_kept (hU : Upkeep s g) (ht : g i = some (k,q))
    (ha : ((service config).monitor k).allows q o) (hs : serverSem env config o w s = some (s',r))
    (h : id ∉ s.issued) : view s' id = .bare := by
  have untouched : touched o ≠ some id := fun e =>
    h (hU.subject_issued ht (touched_subject ha.2.1 e))
  rcases view_frame hs untouched with e | ⟨-,e,-⟩
  · exact e.trans (hU.unknown id h)
  · exact e

theorem upkeep_step (hU : Upkeep s g) (h : ServiceStep env config s g l s' g') : Upkeep s' g' := by
  have hp := phaseStep_of_ghost h.first
  have link := tasks_kept service_turns (fun _ t => Link t.1 t.2.1 t.2.2.stage) h
    (fun i t ht => hU.link i t.1 t.2 ht) (fun k _ => link_init k)
    fun i k q o r w ht allowed _ _ =>
      ⟨link_next (hU.link i k q ht) allowed.1 allowed.2.1 r,fun v _ => link_init _,
        fun a t _ hg => hU.link a t.1 t.2 hg⟩
  have fit := tasks_kept service_turns
    (fun s t => ∀ id, subject (t.1,t.2.2.stage) = some id → Fit (view s id) (t.1,t.2.2.stage)) h
    (fun i t ht id => hU.fit i t.1 t.2 id ht)
    (fun k hk id e => by
      obtain ⟨v,rfl,-⟩ := subject_init e
      cases hk)
    fun i k q o r w ht allowed hs _ =>
      ⟨fun id => hU.fit_next (fun id => hU.fit i k q id ht) allowed.2.1 hs,
        fun v hv id e => by
          cases e
          exact fit_spawned hU ht allowed.2.1 hs hv,
        fun a t hne hg id e => fit_frame hs
          (fun et => hne (hU.subject_once hg ht e (touched_subject allowed.2.1 et)))
          (hU.fit a t.1 t.2 id hg e)⟩
  refine ⟨identity_step hU.identity hp,held_step hU.identity hU.held hp,
    fun i k q ht => link i (k,q) ht,fun i k q id ht => fit i (k,q) ht id,?_,?_⟩
  · intro id hpend
    cases h with
    | start hk free | next ht ends => exact hU.pending id hpend
    | act ht allowed hs free => exact pending_kept hU ht allowed hs hpend
  · intro id hn
    have hn' : id ∉ s.issued := mt (issued_step hp) hn
    cases h with
    | start hk free | next ht ends => exact hU.unknown id hn
    | act ht allowed hs free => exact unknown_kept hU ht allowed hs hn'

end

/-- In a stage that only one operation ends and in which no task may stop, the
rest of the program is bound to perform that operation. -/
theorem bound_of_stage {p : ServerProg (Option TaskKind)} (stops : ∀ k', ¬stageFinal k st k')
    (only : ∀ o', Serves k st o' → o' = o ∨ ∀ r, stageNext config st o' r = st)
    (hc : Conforms ((service config).monitor k) ((service config).final k) q p)
    (hq : q.2.stage = st) : Bound o p := by
  induction p generalizing q with
  | ret a =>
    have hfinal : stageFinal k q.2.stage a := hc.2.1
    rw [hq] at hfinal
    exact absurd hfinal (stops a)
  | step o' next ih =>
    have hserves : Serves k q.2.stage o' := hc.1.2.1
    rw [hq] at hserves
    rcases only o' hserves with e | e
    · exact .inl e
    · refine .inr fun r => ih r (hc.2 r) ?_
      change stageNext config q.2.stage o' r = st
      rw [hq,e r]

theorem isSome_opened (ids : List WorkorderId) (t : Table WorkorderId Unit) (id : WorkorderId) :
    ((ids.foldl (fun t id => t.insert id ()) t).lookup id).isSome =
      (ids.contains id || (t.lookup id).isSome) := by
  induction ids generalizing t with
  | nil => simp
  | cons a ids ih =>
    rw [List.foldl_cons,ih,isSome_insert,List.contains_cons]
    by_cases h : a = id
    · simp [h]
    · simp [h,beq_eq_false_iff_ne.mpr (Ne.symm h)]

theorem isSome_activeChannels (t : Table WorkorderId Workorder) (id : WorkorderId) :
    ((activeChannels t).lookup id).isSome = (t.lookup id).any Workorder.isActive := by
  unfold activeChannels
  rw [isSome_opened,Bool.eq_iff_iff]
  simp only [Bool.or_eq_true,List.contains_iff_mem,Option.any_eq_true]
  constructor
  · rintro (h | h)
    · obtain ⟨e,he,rfl⟩ := List.mem_map.mp h
      obtain ⟨hm,ha⟩ := List.mem_filter.mp he
      exact ⟨e.2,AList.mem_lookup_iff.mpr hm,ha⟩
    · cases h
  · rintro ⟨v,hv,ha⟩
    exact .inl (List.mem_map.mpr ⟨⟨id,v⟩,List.mem_filter.mpr ⟨AList.mem_lookup_iff.mp hv,ha⟩,rfl⟩)

theorem view_boot (now : Time) (store : StoredEntries) (disk : Persisted) (issued : List Uuid)
    (id : WorkorderId) :
    view (boot config now store disk issued) id =
      ⟨((loadWorkorders now disk).lookup id).any Workorder.isActive,
        ((loadWorkorders now disk).lookup id).any Workorder.isActive,false,false,
        ((loadWorkorders now disk).lookup id).isSome⟩ := by
  unfold view boot
  rw [isSome_activeChannels]
  rfl

def startServices (config : ServerConfig) : Services :=
  fun i => (backgroundKind i).map (service config).task

theorem first_start (config : ServerConfig) : (startServices config).first = startPhases := by
  funext i
  match i with
  | 0 | 1 | 2 => rfl
  | n+3 => rfl

theorem service_obeyed (env : Codecs) (config : ServerConfig) :
    Obeys (serverSystem env config) (service config) :=
  (phases_obeyed env config).both (stages_obeyed env config)

theorem startServices_task (h : startServices config i = some (k,q)) :
    (k,q) = (service config).task k ∧ phaseInit k = .asking := by
  obtain ⟨k1,hk,he⟩ := Option.map_eq_some_iff.mp h
  cases he
  refine ⟨rfl,?_⟩
  match i with
  | 0 | 1 | 2 =>
    cases hk
    rfl
  | n+3 => cases hk

theorem upkeep_start (h : Started env config P) : Upkeep P.shared (startServices config) := by
  have hi := identity_start h
  have hh := held_start h
  rw [← first_start config] at hi hh
  refine ⟨hi,hh,fun i k q ht => ?_,fun i k q id ht hs => ?_,fun id hp => ?_,fun id hn => ?_⟩
  · obtain ⟨he,-⟩ := startServices_task ht
    cases he
    exact link_init k
  · obtain ⟨he,hk⟩ := startServices_task ht
    cases he
    obtain ⟨w,rfl,-⟩ := subject_init hs
    cases hk
  · obtain ⟨now,store,disk,issued,filed⟩ := h
    obtain ⟨v,hv,hst⟩ := Option.map_eq_some_iff.mp hp
    change view (boot _ _ _ _ _) id = _
    change (loadWorkorders now disk).lookup id = some v at hv
    simp [view_boot,hv,Workorder.isActive,hst,WorkorderStatus.active,View.ready]
  · obtain ⟨now,store,disk,issued,filed⟩ := h
    change view (boot _ _ _ _ _) id = _
    have hl : (loadWorkorders now disk).lookup id = none := by
      cases hl : (loadWorkorders now disk).lookup id with
      | none => rfl
      | some v => exact absurd (hi.filed id v hl).2 hn
    simp [view_boot,hl,View.bare]

theorem services_run {cond : ServerCondition} {P' : ServerPool} {ls : List ServerLabel}
    (I : Server → Services → Prop)
    (keeps : ∀ s g l s' g', I s g → ServiceStep env config s g l s' g' → cond s g.kinds l → I s' g')
    (start : Started env config P) (first : I P.shared (startServices config))
    (run : Run (serverSystem env config) cond P ls P') :
    ∃ g, Tracks (service config) P' g ∧ I P'.shared g := by
  have tracks : Tracks (service config) P (startServices config) := by
    obtain ⟨now,store,disk,issued,-⟩ := start
    exact tracks_background (service_obeyed env config) _ fun _ => rfl
  exact (run_invariant (service_obeyed env config) I (fun _ => True)
    (fun _ _ _ _ _ hI hs hc => ⟨keeps _ _ _ _ _ hI hs hc,trivial⟩) run ⟨_,tracks,first⟩).1

end Remerge.ChannelUpkeep
