import Remerge.WorkorderIdentity

/-!
# The life of a workorder

From the claim on, one task owns a workorder: the queue loop until it spawns
the processor, then the processor. While only pending workorders are
cancelled, the status follows the owner's phase, so that a terminal status is
final and no container is started for it. A cancel that hits a claimed
workorder breaks this: the processor never looks at the status it overwrites.
-/

set_option autoImplicit false

namespace Remerge.StatusLifecycle
open StepProgram Interleaving SnapshotTypes SnapshotCleanup ServerState ServerOps ServerTasks
open ServerPhases ServerCore WorkorderIdentity Function

variable {c c' : Core} {id : WorkorderId} {config : ServerConfig} {g g' : Phases}
  {l : ServerLabel}

def owns : TaskKind × Phase → Option WorkorderId
  | (.queue,.claimed w) => some w.id
  | (.process _,.asking) => none
  | (.process w,_) => some w.id
  | _ => none

theorem owns_rests : RestsIdle owns := fun k => by cases k <;> rfl

theorem mentions_of_owns {t : TaskKind × Phase} (h : owns t = some id) : mentions t = some id := by
  obtain ⟨k,q⟩ := t
  cases k with
  | queue => cases q <;> first | exact h | cases h
  | process w => cases q <;> exact h
  | _ => cases h

def Fits (c : Core) : TaskKind × Phase → Prop
  | (.queue,.claimed w) => c.statusOf w.id = some .provisioning
  | (.process _,.asking) => True
  | (.process w,.provisioning) => c.statusOf w.id = some .provisioning
  | (.process w,.building) => c.statusOf w.id = some .building
  | (.process w,_) => ∀ st, c.statusOf w.id = some st → st.terminal
  | _ => True

def Undisturbed (c c' : Core) (id : WorkorderId) : Prop :=
  c'.statusOf id = c.statusOf id ∨
    (c'.statusOf id = none ∧ ∀ st, c.statusOf id = some st → st.terminal)

structure Owned (c : Core) (g : Phases) : Prop where
  once : Exclusive (roleAt g owns)
  fits : ∀ i t, g i = some t → Fits c t

def cancelsOnlyPending : ServerCondition := fun s _ l => match l with
  | .act _ _ (.cancel id) _ =>
    s.statusOf id ≠ some .provisioning ∧ s.statusOf id ≠ some .building
  | _ => True

section

theorem statusOf_insert (c : Core) (id id' : WorkorderId) (w : Workorder) :
    ({ c with workorders := c.workorders.insert id w } : Core).statusOf id' =
      if id' = id then some w.status else c.statusOf id' := by
  unfold Core.statusOf
  rw [AList.lookup_insert_ite]
  split <;> rfl

theorem statusOf_modify (c : Core) (id id' : WorkorderId) (now : Time) (st : WorkorderStatus) :
    ({ c with workorders := c.workorders.modify id (writeStatus now st) } : Core).statusOf id' =
      if id' = id then (c.statusOf id).map (fun _ => st) else c.statusOf id' := by
  unfold Core.statusOf
  rw [AList.lookup_modify]
  split
  · cases c.workorders.lookup id <;> rfl
  · rfl

variable {id' : WorkorderId}

theorem statusOf_of_lookup {w : Workorder} (h : c.workorders.lookup id = some w) :
    c.statusOf id = some w.status := by
  unfold Core.statusOf
  rw [h]
  rfl

theorem undisturbed_insert (w : Workorder) (h : id' ≠ id) :
    Undisturbed c { c with workorders := c.workorders.insert id w } id' := by
  left
  rw [statusOf_insert,if_neg h]

theorem undisturbed_modify (now : Time) (st : WorkorderStatus) (h : id' ≠ id) :
    Undisturbed c { c with workorders := c.workorders.modify id (writeStatus now st) } id' := by
  left
  rw [statusOf_modify,if_neg h]

theorem undisturbed_evict {t : Table WorkorderId Workorder}
    (h : t.lookup id = c.workorders.lookup id ∨
      (t.lookup id = none ∧ ∀ st, c.statusOf id = some st → st.terminal)) :
    Undisturbed c { c with workorders := t } id := by
  rcases h with h | ⟨h,ht⟩
  · left
    simp [Core.statusOf,h]
  · right
    exact ⟨by simp [Core.statusOf,h],ht⟩

inductive StatusStep (id : WorkorderId) :
    ServerOp → Option WorkorderStatus → Option WorkorderStatus → Prop where
  | same {o : ServerOp} {x : Option WorkorderStatus} : StatusStep id o x x
  | insert {w : Workorder} {x : Option WorkorderStatus} (h : w.id = id) :
      StatusStep id (.insertWorkorder w) x (some .pending)
  | claim : StatusStep id (.claim id) (some .pending) (some .provisioning)
  | cancel {st : WorkorderStatus} (h : st.active) :
      StatusStep id (.cancel id) (some st) (some .cancelled)
  | write {st st' : WorkorderStatus} : StatusStep id (.setStatus id st') (some st) (some st')
  | evict {st : WorkorderStatus} (h : st.terminal) : StatusStep id .evict (some st) none

theorem statusStep_write (now : Time) (st : WorkorderStatus) :
    StatusStep id (.setStatus id' st) (c.statusOf id)
      (({ c with workorders := c.workorders.modify id' (writeStatus now st) } : Core).statusOf id) := by
  rw [statusOf_modify]
  by_cases h : id = id'
  · subst h
    rw [if_pos rfl]
    cases c.statusOf id with
    | none => exact .same
    | some _ => exact .write
  · rw [if_neg h]
    exact .same

theorem statusStep_of_core {k : TaskKind} {q q' : Phase} {o : ServerOp}
    (hs : CoreStep config k q c o q' c') (id : WorkorderId) :
    StatusStep id o (c.statusOf id) (c'.statusOf id) := by
  cases hs with
  | insert _ hp =>
    rw [statusOf_insert]
    split
    · next e =>
      rw [hp]
      exact .insert e.symm
    · exact .same
  | cancelHit hl ha =>
    rw [statusOf_insert]
    split
    · next e =>
      subst e
      rw [statusOf_of_lookup hl]
      exact .cancel ha
    · exact .same
  | claimHit hl hp =>
    rw [statusOf_insert]
    split
    · next e =>
      subst e
      rw [statusOf_of_lookup hl,hp]
      exact .claim
    · exact .same
  | build => exact statusStep_write _ _
  | finish _ _ => exact statusStep_write _ _
  | evict he _ =>
    rcases undisturbed_evict (he id) with e | ⟨e,ht⟩
    · rw [e]
      exact .same
    · rw [e]
      cases hst : c.statusOf id with
      | none => exact .same
      | some st => exact .evict (ht st hst)
  | _ => exact .same

variable {t : TaskKind × Phase}

theorem fits_frame (h : Fits c t) (hs : ∀ id, owns t = some id → Undisturbed c c' id) :
    Fits c' t := by
  have live : ∀ {id st}, owns t = some id → st.terminal = false → c.statusOf id = some st →
      c'.statusOf id = some st := by
    intro id st ho ht hst
    rcases hs id ho with e | ⟨-,e⟩
    · exact e.trans hst
    · rw [e st hst] at ht
      cases ht
  obtain ⟨k,q⟩ := t
  cases k with
  | queue => cases q <;> first | trivial | exact live rfl rfl h
  | process w =>
    have ended : owns (.process w,q) = some w.id →
        (∀ st, c.statusOf w.id = some st → st.terminal) →
        ∀ st, c'.statusOf w.id = some st → st.terminal := by
      intro ho hf st hst
      rcases hs w.id ho with e | ⟨e,-⟩
      · exact hf st (e ▸ hst)
      · rw [e] at hst
        cases hst
    cases q <;> first | trivial | exact live rfl rfl h | exact ended rfl h
  | _ => trivial

theorem not_pending_of_fits (h : Fits c t) (ho : owns t = some id) :
    c.statusOf id ≠ some .pending := by
  intro hp
  have ended : (∀ st, c.statusOf id = some st → st.terminal) → False := fun hf => by
    have := hf _ hp
    cases this
  obtain ⟨k,q⟩ := t
  cases k with
  | queue =>
    cases q <;> first
      | cases ho; done
      | (cases ho; have e := hp.symm.trans h; cases e)
  | process w =>
    cases q <;> first
      | (cases ho; have e := hp.symm.trans h; cases e)
      | (cases ho; exact ended h)
      | cases ho
  | _ => cases ho

end

section
variable {i : ℕ} {k : TaskKind} {q q' : Phase} {o : ServerOp} {j : ℕ}
  {x : Option (TaskKind × Phase)} {a : ℕ} {w : Workorder}

theorem Owned.not_pending (h : Owned c g) (ha : roleAt g owns a = some id) :
    c.statusOf id ≠ some .pending := by
  obtain ⟨t,ht,ho⟩ := roleAt_eq_some.mp ha
  exact not_pending_of_fits (h.fits a t ht) ho

def CancelsPending (c : Core) (o : ServerOp) : Prop :=
  ∀ id, o = .cancel id → c.statusOf id ≠ some .provisioning ∧ c.statusOf id ≠ some .building

theorem pending_of_active {v : Workorder} (hc : CancelsPending c (.cancel id))
    (hl : c.workorders.lookup id = some v) (ha : v.status.active) :
    c.statusOf id = some .pending := by
  have hst := statusOf_of_lookup hl
  obtain ⟨h1,h2⟩ := hc id rfl
  rw [hst] at h1 h2 ⊢
  cases hv : v.status <;> simp_all [WorkorderStatus.active]

theorem undisturbed_of_step (hi : Identity c g) (h : Owned c g) (ht : g i = some (k,q))
    (hs : CoreStep config k q c o q' c') (hc : CancelsPending c o) (hne : a ≠ i)
    (ha : roleAt g owns a = some id) : Undisturbed c c' id := by
  have notOwn : ∀ v, owns (k,q) = some v → id ≠ v := by
    intro v hv e
    exact hne (h.once a i id ha (e ▸ (roleAt_some ht owns).trans hv))
  have live := h.not_pending ha
  cases hs with
  | insert _ _ =>
    refine undisturbed_insert _ fun e => ?_
    have hr := hi.reserved i _ (roleAt_some ht reserves)
    obtain ⟨t,hg,ho⟩ := roleAt_eq_some.mp ha
    exact hr.2.2 a (e ▸ roleAt_eq_some.mpr ⟨t,hg,mentions_of_owns ho⟩)
  | cancelHit hl hact =>
    exact undisturbed_insert _ fun e => live (e ▸ pending_of_active hc hl hact)
  | claimHit hl hp =>
    refine undisturbed_insert _ fun e => live ?_
    rw [e,statusOf_of_lookup hl,hp]
  | build => exact undisturbed_modify _ _ (notOwn _ rfl)
  | finish hq _ =>
    refine undisturbed_modify _ _ (notOwn _ ?_)
    rcases hq with rfl | rfl <;> rfl
  | evict he _ => exact undisturbed_evict (he id)
  | _ => exact .inl rfl

theorem fits_of_step (hf : Fits c (k,q)) (hs : CoreStep config k q c o q' c') : Fits c' (k,q') := by
  cases hs with
  | plain _ => exact hf
  | claimHit hl _ =>
    change Core.statusOf _ _ = _
    rw [statusOf_insert,if_pos rfl]
    rfl
  | build =>
    rename_i w now
    have hw : c.statusOf w.id = some .provisioning := hf
    change Core.statusOf _ _ = _
    rw [statusOf_modify,if_pos rfl,hw]
    rfl
  | finish _ hterm =>
    rename_i w now st _
    intro st' hst
    rw [statusOf_modify,if_pos rfl] at hst
    obtain ⟨_,-,rfl⟩ := Option.map_eq_some_iff.mp hst
    exact hterm
  | startWorker => exact hf
  | endClear => exact hf
  | _ => trivial

theorem owns_once_act (once : Exclusive (roleAt g owns))
    (live : ∀ a id, roleAt g owns a = some id → c.statusOf id ≠ some .pending)
    (ht : g i = some (k,q)) (hs : CoreStep config k q c o q' c') (free : g j = none) (hx : Idle x) :
    Exclusive (roleAt (update (update g i (some (k,q'))) j x) owns) := by
  have hown : roleAt g owns i = owns (k,q) := roleAt_some ht owns
  by_cases kept : ∀ id, owns (k,q') = some id → owns (k,q) = some id
  · refine once.mono fun a id ha => ?_
    rcases held_act owns_rests ht free hx ha with ⟨rfl,he⟩ | ⟨-,he⟩
    · exact hown.trans (kept id he)
    · exact he
  · rw [roleAt_act owns_rests ht free hx]
    cases hs with
    | claimHit hl hp =>
      rename_i w v now
      refine once.take i w.id fun a _ ha => live a _ ha ?_
      rw [statusOf_of_lookup hl,hp]
    | plain _ => exact absurd (fun _ e => e) kept
    | finish hq _ => rcases hq with rfl | rfl <;> exact absurd (fun _ e => e) kept
    | _ => first | exact absurd (fun _ e => e) kept | exact absurd (fun _ e => by cases e) kept

theorem owned_act (hi : Identity c g) (h : Owned c g) (ht : g i = some (k,q))
    (hs : CoreStep config k q c o q' c') (free : g j = none) (hx : Idle x)
    (hc : CancelsPending c o) :
    Owned c' (update (update g i (some (k,q'))) j x) := by
  refine ⟨owns_once_act h.once (fun _ _ ha => h.not_pending ha) ht hs free hx,?_⟩
  intro a t ha
  rcases get_act hx ha with ⟨rfl,rfl⟩ | ⟨k',rfl⟩ | ⟨hne,hg⟩
  · exact fits_of_step (h.fits a (k,q) ht) hs
  · cases k' <;> trivial
  · refine fits_frame (h.fits a t hg) fun id ho => ?_
    exact undisturbed_of_step hi h ht hs hc hne (roleAt_eq_some.mpr ⟨t,hg,ho⟩)

theorem owned_turn (h : Owned c g) (hx : Idle x) : Owned c (update g i x) := by
  refine ⟨h.once.mono fun a id ha => held_turn owns_rests hx ha,?_⟩
  intro a t ha
  rcases get_turn hx ha with ⟨k',rfl⟩ | ⟨-,hg⟩
  · cases k' <;> trivial
  · exact h.fits a t hg

theorem owns_once_spawn (once : Exclusive (roleAt g owns)) (ht : g i = some (.queue,.claimed w)) :
    Exclusive (roleAt (update (update g i (some (.queue,.finished))) j
      (some (.process w,.provisioning))) owns) := by
  have hi : roleAt g owns i = some w.id := roleAt_some ht owns
  intro a b id ha hb
  rcases held_spawn rfl ha with ⟨rfl,ea⟩ | ⟨ha',-,ea⟩ <;>
    rcases held_spawn rfl hb with ⟨rfl,eb⟩ | ⟨hb',-,eb⟩
  · rfl
  · cases ea
    exact absurd (once b i w.id eb hi) hb'
  · cases eb
    exact absurd (once a i w.id ea hi) ha'
  · exact once a b id ea eb

theorem owned_spawn (h : Owned c g) (ht : g i = some (.queue,.claimed w)) :
    Owned c (update (update g i (some (.queue,.finished))) j
      (some (.process w,.provisioning))) := by
  refine ⟨owns_once_spawn h.once ht,?_⟩
  intro a t ha
  by_cases haj : a = j
  · subst haj
    rw [update_self] at ha
    cases ha
    have hf : Fits c (.queue,.claimed w) := h.fits i _ ht
    exact hf
  · rw [update_of_ne haj] at ha
    by_cases hai : a = i
    · subst hai
      rw [update_self] at ha
      cases ha
      trivial
    · rw [update_of_ne hai] at ha
      exact h.fits a t ha

end

variable {env : Codecs} {st : WorkorderStatus}

structure Lifecycle (c : Core) (g : Phases) : Prop where
  identity : Identity c g
  owned : Owned c g

def LabelCancelsPending (c : Core) : ServerLabel → Prop
  | .act _ _ o _ => CancelsPending c o
  | _ => True

theorem cancelsPending_of_condition {s : Server} {kinds : ℕ → Option TaskKind}
    (h : cancelsOnlyPending s kinds l) : LabelCancelsPending (core s) l := by
  cases l with
  | act i k o r =>
    intro id e
    subst e
    exact h
  | _ => trivial

theorem lifecycle_step (h : Lifecycle c g) (hs : PhaseStep config c g l c' g')
    (hc : LabelCancelsPending c l) : Lifecycle c' g' := by
  refine ⟨identity_step h.identity hs,?_⟩
  cases hs with
  | turn hx hg hl => exact owned_turn h.owned hx
  | act ht hs free hx => exact owned_act h.identity h.owned ht hs free hx hc
  | spawn ht free => exact owned_spawn h.owned ht

theorem lifecycle_start {P : ServerPool} (h : Started env config P) :
    Lifecycle (core P.shared) startPhases := by
  refine ⟨identity_start h,?_,?_⟩
  · intro a b v ha
    rw [startPhases_role owns_rests] at ha
    cases ha
  · intro a t ha
    rcases startPhases_idle a with e | ⟨k,e⟩
    · rw [e] at ha
      cases ha
    · rw [e] at ha
      cases ha
      cases k <;> trivial

/-- A workorder that has ended: its status stands or its entry is gone, and
its identifier cannot come back. -/
structure Settled (id : WorkorderId) (st : WorkorderStatus) (c : Core) (g : Phases) : Prop where
  issued : id ∈ c.issued
  unreserved : ∀ a, roleAt g reserves a ≠ some id
  status : c.statusOf id = some st ∨ c.statusOf id = none

def startsWorker (id : WorkorderId) : ServerLabel → Prop
  | .act _ _ (.startWorker id' _) (.ok _) => id' = id
  | _ => False

theorem Settled.ne_active (h : Settled id st c g) (ht : st.terminal) {id' : WorkorderId}
    {st' : WorkorderStatus} (hst : c.statusOf id' = some st') (ha : st'.terminal = false) :
    id ≠ id' := by
  intro e
  subst e
  rcases h.status with h | h
  · rw [h] at hst
    cases hst
    rw [ht] at ha
    cases ha
  · rw [h] at hst
    cases hst

theorem settled_undisturbed (hl : Lifecycle c g) (h : Settled id st c g) (ht : st.terminal)
    {i : ℕ} {k : TaskKind} {q q' : Phase} {o : ServerOp} (hg : g i = some (k,q))
    (hs : CoreStep config k q c o q' c') : Undisturbed c c' id := by
  have hf := hl.owned.fits i (k,q) hg
  cases hs with
  | insert _ _ =>
    exact undisturbed_insert _ fun e => h.unreserved i (e ▸ roleAt_some hg reserves)
  | cancelHit hv ha =>
    refine undisturbed_insert _ (h.ne_active ht (statusOf_of_lookup hv) ?_)
    rw [WorkorderStatus.terminal_eq,ha]
    rfl
  | claimHit hv hp =>
    refine undisturbed_insert _ (h.ne_active ht (statusOf_of_lookup hv) ?_)
    rw [hp]
    rfl
  | build => exact undisturbed_modify _ _ (h.ne_active ht hf rfl)
  | finish hq hend =>
    rename_i w now st'
    refine undisturbed_modify _ _ ?_
    rcases hq with rfl | rfl
    · have hp : c.statusOf w.id = some .provisioning := hf
      exact h.ne_active ht hp rfl
    · have hb : c.statusOf w.id = some .building := hf
      exact h.ne_active ht hb rfl
  | evict he _ => exact undisturbed_evict (he id)
  | _ => exact .inl rfl

theorem settled_step (hl : Lifecycle c g) (h : Settled id st c g) (ht : st.terminal)
    (hs : PhaseStep config c g l c' g') : Settled id st c' g' ∧ ¬ startsWorker id l := by
  have hst : (c'.statusOf id = some st ∨ c'.statusOf id = none) ∧ ¬ startsWorker id l := by
    cases hs with
    | turn hx hg hn =>
      refine ⟨h.status,?_⟩
      cases l with
      | act i k o r => exact absurd rfl (hn i k o r)
      | _ => exact fun e => e
    | spawn ht free => exact ⟨h.status,fun e => e⟩
    | act hg hs free hx =>
      rename_i i j k q q' o r x
      refine ⟨?_,?_⟩
      · rcases settled_undisturbed hl h ht hg hs with e | ⟨e,-⟩
        · rw [e]
          exact h.status
        · exact .inr e
      · intro e
        cases hs with
        | startWorker =>
          rename_i w tag
          have hb : c.statusOf w.id = some .building := hl.owned.fits i _ hg
          refine h.ne_active ht hb rfl ?_
          cases r with
          | ok container => exact e.symm
          | error _ => exact e.elim
        | plain hp => cases o <;> first | cases hp; done | exact e
        | _ => exact e
  refine ⟨⟨issued_step hs h.issued,?_,hst.1⟩,hst.2⟩
  intro a ha
  rcases reserved_step hs ha with he | hn
  · exact h.unreserved a he
  · exact hn h.issued

theorem settled_of_terminal (h : Lifecycle c g) (hst : c.statusOf id = some st) :
    Settled id st c g := by
  obtain ⟨w,hw,-⟩ := Option.map_eq_some_iff.mp hst
  refine ⟨(h.identity.filed id w hw).2,?_,.inl hst⟩
  intro a ha
  have hn := (h.identity.reserved a id ha).2.1
  rw [hw] at hn
  cases hn

/-- In every run in which a cancel never finds its workorder Provisioning or
Building, a terminal status is final for as long as the entry exists, and no
worker is started for the workorder any more. -/
theorem terminal_status_absorbing {P0 P1 P2 : ServerPool} {ls ls' : List ServerLabel}
    (start : Started env config P0)
    (run : Run (serverSystem env config) cancelsOnlyPending P0 ls P1)
    (later : Run (serverSystem env config) cancelsOnlyPending P1 ls' P2)
    (hst : P1.shared.statusOf id = some st) (ht : st.terminal) :
    (P2.shared.statusOf id = some st ∨ P2.shared.statusOf id = none) ∧
      ∀ l ∈ ls', ¬ startsWorker id l := by
  obtain ⟨⟨g,hg,hl⟩,-⟩ := run_invariant (phases_obeyed env config)
    (fun s g => Lifecycle (core s) g) (fun _ => True)
    (fun s g l s' g' h hs hc =>
      ⟨lifecycle_step h (phaseStep_of_ghost hs) (cancelsPending_of_condition hc),trivial⟩)
    run ⟨startPhases,by cases start; exact tracks_start _ _ _,lifecycle_start start⟩
  obtain ⟨⟨g',-,-,hs⟩,hgood⟩ := run_invariant (phases_obeyed env config)
    (fun s g => Lifecycle (core s) g ∧ Settled id st (core s) g) (fun l => ¬ startsWorker id l)
    (fun s g l s' g' h hs hc =>
      have hp := phaseStep_of_ghost hs
      have hset := settled_step h.1 h.2 ht hp
      ⟨⟨lifecycle_step h.1 hp (cancelsPending_of_condition hc),hset.1⟩,hset.2⟩)
    later ⟨g,hg,hl,settled_of_terminal hl hst⟩
  exact ⟨hs.status,hgood⟩

def cancelMeetsPending (s : Server) (_ : ℕ → Option TaskKind) : ServerLabel → Bool
  | .act _ _ (.cancel id) _ =>
    s.statusOf id != some .provisioning && s.statusOf id != some .building
  | _ => true

theorem cancelsOnlyPending_of_check (s : Server) (kinds : ℕ → Option TaskKind) (l : ServerLabel)
    (h : cancelMeetsPending s kinds l) : cancelsOnlyPending s kinds l := by
  unfold cancelMeetsPending at h
  unfold cancelsOnlyPending
  split
  · simpa using h
  · trivial

def cancelPendingMoves : List (Move TaskKind ServerOracle) :=
  [.start 3 (.submit (sampleRequest "c1"))] ++ acts 16 3 9 "w1" ++
    [.start 4 (.cancel "w1")] ++ acts 1 4 9 "w1"

/-- A cancelled pending workorder stays cancelled while the queue loop turns. -/
theorem cancelled_while_pending_stays :
    ∃ P0 ls P1 ls' P2, Started plainCodecs .default P0 ∧
      Run (serverSystem plainCodecs .default) cancelsOnlyPending P0 ls P1 ∧
      Run (serverSystem plainCodecs .default) cancelsOnlyPending P1 ls' P2 ∧
      P1.shared.statusOf "w1" = some .cancelled ∧
      (P2.shared.statusOf "w1" = some .cancelled ∨ P2.shared.statusOf "w1" = none) ∧
      ∀ l ∈ ls', ¬ startsWorker "w1" l := by
  obtain ⟨ls,P1,ls',P2,run,later,hst,-⟩ := exists_runs_of_play
    (serverSystem plainCodecs .default) cancelsOnlyPending_of_check
    cancelPendingMoves (acts 1 0 9 "w1" ++ acts 4 4 9 "w1")
    (freshPool plainCodecs .default)
    (fun P => P.shared.statusOf "w1" == some .cancelled) (fun _ _ => true) (by decide)
  have hc : P1.shared.statusOf "w1" = some .cancelled := by simpa using hst
  exact ⟨_,ls,P1,ls',P2,started_fresh _ _,run,later,hc,
    terminal_status_absorbing (started_fresh _ _) run later hc rfl⟩

def cancelProvisioningMoves : List (Move TaskKind ServerOracle) :=
  [.start 3 (.submit (sampleRequest "c1"))] ++ acts 16 3 9 "w1" ++ acts 7 0 4 "w1" ++
    acts 4 4 9 "w1" ++ [.start 5 (.cancel "w1")] ++ acts 1 5 9 "w1"

def startsWorkerCheck (id : WorkorderId) : ServerLabel → Bool
  | .act _ _ (.startWorker id' _) (.ok _) => id' == id
  | _ => false

theorem startsWorker_of_check (h : startsWorkerCheck id l) : startsWorker id l := by
  unfold startsWorkerCheck at h
  split at h
  · exact eq_of_beq h
  · cases h

/-- A cancel in the middle of provisioning is overwritten: the processor sets
the workorder to Building and starts its container. -/
theorem cancelled_workorder_is_built :
    ∃ P0 ls P1 ls' P2, Started plainCodecs .default P0 ∧
      Run (serverSystem plainCodecs .default) unrestricted P0 ls P1 ∧
      Run (serverSystem plainCodecs .default) unrestricted P1 ls' P2 ∧
      P1.shared.statusOf "w1" = some .cancelled ∧
      P2.shared.statusOf "w1" = some .building ∧ ∃ l ∈ ls', startsWorker "w1" l := by
  obtain ⟨ls,P1,ls',P2,run,later,hst,h2⟩ := exists_runs_of_play
    (serverSystem plainCodecs .default) anyStep_unrestricted
    cancelProvisioningMoves (acts 9 4 9 "w1") (freshPool plainCodecs .default)
    (fun P => P.shared.statusOf "w1" == some .cancelled)
    (fun ls P => P.shared.statusOf "w1" == some .building && ls.any (startsWorkerCheck "w1"))
    (by decide)
  obtain ⟨hb,hw⟩ := Bool.and_eq_true_iff.mp h2
  obtain ⟨l,hl,hs⟩ := List.any_eq_true.mp hw
  exact ⟨_,ls,P1,ls',P2,started_fresh _ _,run,later,by simpa using hst,by simpa using hb,
    l,hl,startsWorker_of_check hs⟩

end Remerge.StatusLifecycle
