import Remerge.ActiveMarkers

/-!
# No client is locked out

A marker is stale when its workorder has ended and nobody is left to clear it.
Whoever ends a workorder clears the client's marker afterwards, so a marked
workorder is active or a clear is under way, and the same holds for a workorder
whose submit has not set the marker yet. The one exception is a clear that runs
before the marker is set: the submit then marks an ended workorder.
-/

set_option autoImplicit false

namespace Remerge.ClientLockout
open StepProgram Interleaving SnapshotTypes SnapshotCleanup ServerState ServerOps ServerTasks
open ServerPhases ServerCore WorkorderIdentity StatusLifecycle ActiveMarkers Function

variable {config : ServerConfig} {c c' : Core} {g g' : Phases} {l : ServerLabel}
  {owner : WorkorderId → ClientId} {id : WorkorderId}

/-- No clear for a client falls between the admission and the marking of one
of its submits. -/
def clearsOutsideSubmit : ServerCondition := fun s kinds l => match l with
  | .act _ _ (.clearActive x) _ => ¬ (s.submissionLock ∧ s.markerOf x = none ∧
      ∃ i req, kinds i = some (.submit req) ∧ req.clientId = x)
  | _ => True

def worksFor : TaskKind × Phase → Option (ClientId × WorkorderId)
  | (.submit req,.named id) => some (req.clientId,id)
  | (.submit req,.locked id) => some (req.clientId,id)
  | (.submit req,.room id) => some (req.clientId,id)
  | (.submit req,.admitted id) => some (req.clientId,id)
  | (.submit req,.inserted id) => some (req.clientId,id)
  | (.queue,.found w) => some (w.clientId,w.id)
  | (.queue,.claimed w) => some (w.clientId,w.id)
  | (.process _,.asking) => none
  | (.process w,_) => some (w.clientId,w.id)
  | (.cancel id,.mustClear x) => some (x,id)
  | _ => none

theorem worksFor_rests : RestsIdle worksFor := fun k => by cases k <;> rfl

structure Owners (owner : WorkorderId → ClientId) (c : Core) (g : Phases) : Prop where
  filed : ∀ id w, c.workorders.lookup id = some w → w.clientId = owner id
  works : ∀ i x id, roleAt g worksFor i = some (x,id) → x = owner id ∧ id ∈ c.issued
  markers : ∀ x id, c.markerOf x = some id → x = owner id ∧ id ∈ c.issued

section

theorem owners_quiet (h : Owners owner c g) (hi : c'.issued = c.issued)
    (hf : ∀ id w, c'.workorders.lookup id = some w → w.clientId = owner id)
    (hw : ∀ a v, roleAt g' worksFor a = some v →
      (∃ b, roleAt g worksFor b = some v) ∨ (v.1 = owner v.2 ∧ v.2 ∈ c.issued))
    (hm : ∀ x id, c'.markerOf x = some id →
      c.markerOf x = some id ∨ (x = owner id ∧ id ∈ c.issued)) : Owners owner c' g' := by
  refine ⟨hf,?_,?_⟩
  · intro a x id ha
    rw [hi]
    rcases hw a _ ha with ⟨b,hb⟩ | hb
    · exact h.works b x id hb
    · exact hb
  · intro x id hx
    rw [hi]
    rcases hm x id hx with e | e
    · exact h.markers x id e
    · exact e

variable {i j : ℕ} {x : Option (TaskKind × Phase)}

theorem owners_newId {req : SubmitRequest} (hid : Identity c g) (h : Owners owner c g)
    (ht : g i = some (.submit req,.asking)) (fresh : id ∉ c.issued) (free : g j = none)
    (hx : Idle x) :
    Owners (update owner id req.clientId) { c with issued := id::c.issued }
      (update (update g i (some (.submit req,.named id))) j x) := by
  have old : ∀ {id'}, id' ∈ c.issued → update owner id req.clientId id' = owner id' := by
    intro id' hm
    exact update_of_ne (fun e : id' = id => fresh (e ▸ hm)) _ _
  refine ⟨?_,?_,?_⟩
  · intro id' w hl
    rw [old (hid.filed id' w hl).2]
    exact h.filed id' w hl
  · intro a y id' ha
    rcases held_act worksFor_rests ht free hx ha with ⟨-,e⟩ | ⟨-,e⟩
    · cases e
      exact ⟨by rw [update_self],List.mem_cons_self⟩
    · obtain ⟨h1,h2⟩ := h.works a y id' e
      exact ⟨by rw [old h2]; exact h1,List.mem_cons_of_mem _ h2⟩
  · intro y id' hy
    obtain ⟨h1,h2⟩ := h.markers y id' hy
    exact ⟨by rw [old h2]; exact h1,List.mem_cons_of_mem _ h2⟩

theorem client_insert {u : Workorder} (h : Owners owner c g) (hu : u.clientId = owner id)
    (id' : WorkorderId) (w : Workorder) (hl : (c.workorders.insert id u).lookup id' = some w) :
    w.clientId = owner id' := by
  rw [AList.lookup_insert_ite] at hl
  split at hl
  · next e =>
    cases hl
    rw [e]
    exact hu
  · exact h.filed id' w hl

theorem client_modify {now : Time} {st : WorkorderStatus} (h : Owners owner c g) (id' : WorkorderId)
    (w : Workorder) (hl : (c.workorders.modify id (writeStatus now st)).lookup id' = some w) :
    w.clientId = owner id' := by
  rw [AList.lookup_modify] at hl
  split at hl
  · next e =>
    obtain ⟨v,hv,rfl⟩ := Option.map_eq_some_iff.mp hl
    rw [e]
    exact h.filed id v hv
  · exact h.filed id' w hl

theorem owners_act (hid : Identity c g) (h : Owners owner c g) {k : TaskKind} {q q' : Phase}
    {o : ServerOp} (ht : g i = some (k,q)) (hs : CoreStep config k q c o q' c') (free : g j = none)
    (hx : Idle x) : ∃ owner', Owners owner' c' (update (update g i (some (k,q'))) j x) := by
  have hwi : roleAt g worksFor i = worksFor (k,q) := roleAt_some ht worksFor
  have works : (∀ v, worksFor (k,q') = some v →
        worksFor (k,q) = some v ∨ (v.1 = owner v.2 ∧ v.2 ∈ c.issued)) →
      ∀ a v, roleAt (update (update g i (some (k,q'))) j x) worksFor a = some v →
      (∃ b, roleAt g worksFor b = some v) ∨ (v.1 = owner v.2 ∧ v.2 ∈ c.issued) := by
    intro hk a v ha
    rcases held_act worksFor_rests ht free hx ha with ⟨-,e⟩ | ⟨-,e⟩
    · rcases hk v e with e | e
      · exact .inl ⟨i,hwi.trans e⟩
      · exact .inr e
    · exact .inl ⟨a,e⟩
  have same : ∀ v, worksFor (k,q) = some v →
      worksFor (k,q) = some v ∨ (v.1 = owner v.2 ∧ v.2 ∈ c.issued) := fun _ e => .inl e
  have entry : ∀ {id w}, c.workorders.lookup id = some w →
      w.clientId = owner w.id ∧ w.id ∈ c.issued := by
    intro id w hl
    obtain ⟨h1,h2⟩ := hid.filed id w hl
    exact ⟨h1 ▸ h.filed id w hl,h1 ▸ h2⟩
  have marks : ∀ y id, c.markerOf y = some id →
      c.markerOf y = some id ∨ (y = owner id ∧ id ∈ c.issued) := fun _ _ e => .inl e
  have cleared : ∀ (z y : ClientId) id,
      ({ c with clients := clearActiveWorkorder z c.clients } : Core).markerOf y = some id →
      c.markerOf y = some id ∨ (y = owner id ∧ id ∈ c.issued) := by
    intro z y id hy
    rw [markerOf_clearActive] at hy
    split at hy
    · cases hy
    · exact .inl hy
  cases hs with
  | newId fresh => exact ⟨_,owners_newId hid h ht fresh free hx⟩
  | plain _ => exact ⟨owner,owners_quiet h rfl h.filed (works same) marks⟩
  | lock _ | room _ | startWorker | build =>
    first
      | exact ⟨owner,owners_quiet h rfl h.filed (works same) marks⟩
      | exact ⟨owner,owners_quiet h rfl (client_modify h) (works same) marks⟩
  | accept hq hm hcs =>
    refine ⟨owner,owners_quiet h rfl h.filed (works ?_) fun y id hy => ?_⟩
    · rcases hq with rfl | ⟨rfl,-⟩ <;> exact fun _ e => .inl e
    · rw [markerOf_insert c _ y _ hcs hm] at hy
      exact .inl hy
  | insert hc hst =>
    rename_i req w
    have hw := h.works i req.clientId w.id hwi
    exact ⟨owner,owners_quiet h rfl (client_insert h (hc.trans hw.1)) (works same) marks⟩
  | setActive =>
    rename_i req id
    have hw := h.works i req.clientId id hwi
    refine ⟨owner,owners_quiet h rfl h.filed (works fun _ e => by cases e) fun y id' hy => ?_⟩
    rw [markerOf_setActive] at hy
    split at hy
    · next e =>
      obtain ⟨_,-,rfl⟩ := Option.map_eq_some_iff.mp hy
      exact .inr ⟨e.trans hw.1,hw.2⟩
    · exact .inl hy
  | cancelHit hl ha =>
    rename_i id v
    have hv := entry hl
    have hidv := (hid.filed id v hl).1
    refine ⟨owner,owners_quiet h rfl (client_insert h (h.filed id v hl)) (works ?_) marks⟩
    intro u e
    cases e
    exact .inr (hidv ▸ hv)
  | find hl _ =>
    refine ⟨owner,owners_quiet h rfl h.filed (works ?_) marks⟩
    intro u e
    cases e
    exact .inr (entry hl)
  | claimHit hl hp =>
    rename_i w v now
    exact ⟨owner,owners_quiet h rfl (client_insert h (h.filed w.id v hl)) (works same) marks⟩
  | finish hq _ =>
    refine ⟨owner,owners_quiet h rfl (client_modify h) (works ?_) marks⟩
    rcases hq with rfl | rfl <;> exact fun _ e => .inl e
  | cancelClear =>
    exact ⟨owner,owners_quiet h rfl h.filed (works fun _ e => by cases e) (cleared _)⟩
  | endClear => exact ⟨owner,owners_quiet h rfl h.filed (works same) (cleared _)⟩
  | evict he _ =>
    refine ⟨owner,owners_quiet h rfl (fun id w hl => ?_) (works fun _ e => by cases e) marks⟩
    rcases he id with e | ⟨e,-⟩
    · exact h.filed id w (e ▸ hl)
    · have hn := e.symm.trans hl
      cases hn
  | _ => exact ⟨owner,owners_quiet h rfl h.filed (works fun _ e => by cases e) marks⟩

theorem owners_step (hid : Identity c g) (h : ∃ owner, Owners owner c g)
    (hs : PhaseStep config c g l c' g') : ∃ owner, Owners owner c' g' := by
  obtain ⟨owner,h⟩ := h
  cases hs with
  | turn hx hg hl =>
    exact ⟨owner,owners_quiet h rfl h.filed
      (fun a v ha => .inl ⟨a,held_turn worksFor_rests hx ha⟩) fun _ _ e => .inl e⟩
  | spawn ht free =>
    rename_i i j w r
    refine ⟨owner,owners_quiet h rfl h.filed (fun a v ha => ?_) fun _ _ e => .inl e⟩
    rcases held_spawn rfl ha with ⟨-,e⟩ | ⟨-,-,e⟩
    · exact .inl ⟨i,(roleAt_some ht worksFor).trans e⟩
    · exact .inl ⟨a,e⟩
  | act ht hs free hx => exact owners_act hid h ht hs free hx

end

def Live (c : Core) (g : Phases) (x : ClientId) (id : WorkorderId) : Prop :=
  (∃ st, c.statusOf id = some st ∧ st.active) ∨ ∃ i, roleAt g clearing i = some (x,id)

section
variable {x : ClientId}

theorem active_step (ho : Owners owner c g) {i : ℕ} {k : TaskKind} {q q' : Phase} {o : ServerOp}
    (ht : g i = some (k,q)) (hs : CoreStep config k q c o q' c') {st : WorkorderStatus}
    (hst : c.statusOf id = some st) (ha : st.active) :
    (∃ st', c'.statusOf id = some st' ∧ st'.active) ∨ clearing (k,q') = some (owner id,id) := by
  have other : ∀ {key : WorkorderId} {u : Workorder}, u.status.active →
      ∃ st', ({ c with workorders := c.workorders.insert key u } : Core).statusOf id = some st' ∧
        st'.active := by
    intro key u hu
    rw [statusOf_insert]
    split
    · exact ⟨_,rfl,hu⟩
    · exact ⟨st,hst,ha⟩
  cases hs with
  | insert hc hp => exact .inl (other (by rw [hp]; rfl))
  | claimHit hl hp => exact .inl (other rfl)
  | cancelHit hl hv =>
    rename_i key v
    by_cases e : id = key
    · subst e
      right
      rw [← ho.filed id v hl]
      rfl
    · left
      rw [statusOf_insert,if_neg e]
      exact ⟨st,hst,ha⟩
  | build =>
    left
    rw [statusOf_modify]
    split
    · next e => exact ⟨.building,by rw [← e,hst]; rfl,rfl⟩
    · exact ⟨st,hst,ha⟩
  | finish hq hterm =>
    rename_i w now st'
    by_cases e : id = w.id
    · right
      have hw : roleAt g worksFor i = some (w.clientId,w.id) := by
        rw [roleAt_some ht worksFor]
        rcases hq with rfl | rfl <;> rfl
      rw [e,← (ho.works i _ _ hw).1]
      rfl
    · left
      rw [statusOf_modify,if_neg e]
      exact ⟨st,hst,ha⟩
  | evict he hn =>
    left
    rcases undisturbed_evict (he id) with e | ⟨-,e⟩
    · exact ⟨st,e.trans hst,ha⟩
    · have ht := e st hst
      rw [WorkorderStatus.terminal_eq,ha] at ht
      cases ht
  | _ => exact .inl ⟨st,hst,ha⟩

theorem live_step (ho : Owners owner c g) (hx : x = owner id) (h : Live c g x id)
    (hs : PhaseStep config c g l c' g') (hn : ∀ i k r, l ≠ .act i k (.clearActive x) r) :
    Live c' g' x id := by
  rcases h with ⟨st,hst,ha⟩ | ⟨a,hcl⟩
  · cases hs with
    | turn hi hg hl | spawn ht free => exact .inl ⟨st,hst,ha⟩
    | act ht hs free hi =>
      rename_i i j k q q' o r y
      rcases active_step ho ht hs hst ha with e | e
      · exact .inl e
      · refine .inr ⟨i,?_⟩
        rw [roleAt_act clearing_rests ht free hi,update_self,hx]
        exact e
  · refine .inr ⟨a,role_kept clearing_rests clearing_final (fun _ => rfl) hs hcl ?_⟩
    intro k q q' o r hl hs hq
    cases hs with
    | cancelClear | endClear =>
      cases hq
      exact absurd hl (hn _ _ _)
    | refuse hor => cases hq
    | accept hor _ _ => cases hq
    | finish hor _ => rcases hor with rfl | rfl <;> cases hq
    | _ => first | exact hq | cases hq

end

/-- Marked workorders are live, and so are those about to be marked. -/
structure Tended (c : Core) (g : Phases) : Prop where
  identity : Identity c g
  entering : Entering c g
  owners : ∃ owner, Owners owner c g
  marked : ∀ x id, c.markerOf x = some id → Live c g x id
  window : ∀ i x id, roleAt g window i = some (x,id) → Live c g x id

section

def ClearsOutside (c : Core) (g : Phases) (l : ServerLabel) : Prop :=
  ∀ i k x r, l = .act i k (.clearActive x) r →
    ¬ (c.submissionLock ∧ c.markerOf x = none ∧
      ∃ a req, g.kinds a = some (.submit req) ∧ req.clientId = x)

variable {x : ClientId}

theorem no_clear_in_window (h : Tended c g) (hc : ClearsOutside c g l) {a : ℕ}
    (ha : roleAt g ActiveMarkers.window a = some (x,id)) (i : ℕ) (k : TaskKind) (r : Unit) :
    l ≠ .act i k (.clearActive x) r := by
  intro e
  obtain ⟨t,ht,hw⟩ := roleAt_eq_some.mp ha
  have hent := entering_of_window hw
  have hlock : roleAt g holdsLock a = some () :=
    roleAt_eq_some.mpr ⟨t,ht,holdsLock_of_entering hent⟩
  refine hc i k x r e ⟨h.entering.locked.taken a hlock,
    (h.entering.unmarked a x (roleAt_eq_some.mpr ⟨t,ht,hent⟩)).1,a,?_⟩
  obtain ⟨k',q⟩ := t
  cases k' with
  | submit req =>
    refine ⟨req,?_,?_⟩
    · simp [Ghost.kinds,ht]
    · cases q <;> cases hw
      rfl
  | _ => cases hw

theorem marker_origin (hs : PhaseStep config c g l c' g') (hm : c'.markerOf x = some id) :
    (c.markerOf x = some id ∨ ∃ i, roleAt g ActiveMarkers.window i = some (x,id)) ∧
      ∀ i k r, l ≠ .act i k (.clearActive x) r := by
  cases hs with
  | turn hx hg hl => exact ⟨.inl hm,fun i k r => hl i k _ r⟩
  | spawn ht free => exact ⟨.inl hm,by simp⟩
  | act ht hs free hx =>
    have cleared : ∀ {z : ClientId},
        ({ c with clients := clearActiveWorkorder z c.clients } : Core).markerOf x = some id →
        c.markerOf x = some id ∧ z ≠ x := by
      intro z hz
      rw [markerOf_clearActive] at hz
      split at hz
      · cases hz
      · next hne => exact ⟨hz,fun e => hne e.symm⟩
    cases hs with
    | cancelClear | endClear =>
      obtain ⟨h1,hne⟩ := cleared hm
      exact ⟨.inl h1,fun i k r e => by cases e; exact hne rfl⟩
    | setActive =>
      rename_i i j r y req id'
      refine ⟨?_,by simp⟩
      rw [markerOf_setActive] at hm
      split at hm
      · next e =>
        obtain ⟨_,-,rfl⟩ := Option.map_eq_some_iff.mp hm
        exact .inr ⟨i,e ▸ roleAt_some ht ActiveMarkers.window⟩
      · exact .inl hm
    | accept hq hn hcs =>
      rw [markerOf_insert c _ x _ hcs hn] at hm
      exact ⟨.inl hm,by simp⟩
    | plain hp =>
      refine ⟨.inl hm,fun i k r e => ?_⟩
      cases e
      cases hp
    | _ => exact ⟨.inl hm,by simp⟩

theorem window_origin (hs : PhaseStep config c g l c' g') {a : ℕ}
    (ha : roleAt g' ActiveMarkers.window a = some (x,id)) :
    roleAt g ActiveMarkers.window a = some (x,id) ∨ ∃ st, c'.statusOf id = some st ∧ st.active := by
  cases hs with
  | turn hx hg hl => exact .inl (held_turn window_rests hx ha)
  | spawn ht free =>
    rcases held_spawn rfl ha with ⟨-,e⟩ | ⟨-,-,e⟩
    · cases e
    · exact .inl e
  | act ht hs free hx =>
    rcases held_act window_rests ht free hx ha with ⟨rfl,e⟩ | ⟨-,e⟩
    · rw [roleAt_some ht]
      cases hs with
      | insert hc hp =>
        rename_i req w
        cases e
        right
        rw [statusOf_insert,if_pos rfl,hp]
        exact ⟨_,rfl,rfl⟩
      | plain hp => exact .inl e
      | _ => cases e
    · exact .inl e

theorem tended_step (h : Tended c g) (hs : PhaseStep config c g l c' g')
    (hc : ClearsOutside c g l) : Tended c' g' := by
  obtain ⟨owner,ho⟩ := h.owners
  have windowOwner : ∀ {a x id}, roleAt g ActiveMarkers.window a = some (x,id) →
      x = owner id := by
    intro a x id ha
    obtain ⟨⟨k,q⟩,ht,hw⟩ := roleAt_eq_some.mp ha
    have hwork : worksFor (k,q) = some (x,id) := by
      cases k with
      | submit req => cases q <;> first | exact hw | cases hw
      | _ => cases hw
    exact (ho.works a x id (roleAt_eq_some.mpr ⟨_,ht,hwork⟩)).1
  refine ⟨identity_step h.identity hs,entering_step h.entering hs,
    owners_step h.identity h.owners hs,?_,?_⟩
  · intro x id hm
    obtain ⟨hm | ⟨a,ha⟩,hn⟩ := marker_origin hs hm
    · exact live_step ho (ho.markers x id hm).1 (h.marked x id hm) hs hn
    · exact live_step ho (windowOwner ha) (h.window a x id ha) hs hn
  · intro a x id ha
    rcases window_origin hs ha with hw | hst
    · exact live_step ho (windowOwner hw) (h.window a x id hw) hs
        fun i k r => no_clear_in_window h hc hw i k r
    · exact .inl hst

theorem tended_start {env : Codecs} {P : ServerPool} (h : Started env config P) :
    Tended (core P.shared) startPhases := by
  have hid := identity_start h
  obtain ⟨now,store,disk,issued,filed⟩ := h
  have unmarked : ∀ x id, (core (boot config now store disk issued)).markerOf x ≠ some id := by
    intro x id hm
    change ((loadClients disk).lookup x).bind (·.activeWorkorder) = some id at hm
    unfold loadClients at hm
    rw [AList.lookup_mapValues] at hm
    cases hl : (disk.clients.getD ∅).lookup x with
    | none | some cs => rw [hl] at hm; cases hm
  refine ⟨hid,entering_start _,⟨fun id =>
    ((loadWorkorders now disk).lookup id).elim "" (·.clientId),?_,?_,?_⟩,?_,?_⟩
  · intro id w hl
    change (loadWorkorders now disk).lookup id = some w at hl
    rw [hl]
    rfl
  · intro i x id hi
    rw [startPhases_role worksFor_rests] at hi
    cases hi
  · exact fun x id hm => absurd hm (unmarked x id)
  · exact fun x id hm => absurd hm (unmarked x id)
  · intro i x id hi
    rw [startPhases_role window_rests] at hi
    cases hi

end

def handlesWorkorder : TaskKind → Bool
  | .submit _ | .cancel _ | .process _ => true
  | _ => false

variable {env : Codecs}

/-- If no clear for a client falls between the admission and the marking of one
of its submits, then whenever no submit, cancel or processing is in progress
every marker names a workorder that is present and active. -/
theorem marker_names_active_workorder {P0 P : ServerPool} {ls : List ServerLabel}
    {x : ClientId} {id : WorkorderId} (start : Started env config P0)
    (run : Run (serverSystem env config) clearsOutsideSubmit P0 ls P)
    (rest : ∀ i k, P.kinds i = some k → handlesWorkorder k = false)
    (hm : P.shared.markerOf x = some id) :
    ∃ st, P.shared.statusOf id = some st ∧ st.active := by
  obtain ⟨⟨g,hg,h⟩,-⟩ := run_invariant (phases_obeyed env config)
    (fun s g => Tended (core s) g) (fun _ => True)
    (fun s g l s' g' h hs hc =>
      ⟨tended_step h (phaseStep_of_ghost hs) (fun _ _ _ _ e => by subst e; exact hc),trivial⟩)
    run ⟨startPhases,by cases start; exact tracks_start _ _ _,tended_start start⟩
  rcases h.marked x id hm with hst | ⟨i,hi⟩
  · exact hst
  · -- A clear under way belongs to a processor or a cancel.
    obtain ⟨⟨k,q⟩,ht,hcl⟩ := roleAt_eq_some.mp hi
    have hk : P.kinds i = some k := by
      rw [hg.kinds]
      simp [Ghost.kinds,ht]
    have hn := rest i k hk
    cases k with
    | process w => cases hn
    | cancel id' => cases hn
    | _ => cases hcl

def atRestBelow (n : ℕ) (P : ServerPool) : Bool :=
  (List.range n).all fun i => (P.kinds i).all fun k => !handlesWorkorder k

theorem rest_of_play {check : Server → (ℕ → Option TaskKind) → ServerLabel → Bool} {n : ℕ}
    (hn : 3 ≤ n) {ms : List (Move TaskKind ServerOracle)} {P : ServerPool}
    {ls : List ServerLabel} (hms : ms.all (Move.below n))
    (h : play (serverSystem env config) check ms (freshPool env config) = some (ls,P))
    (hr : atRestBelow n P) :
    ∀ i k, P.kinds i = some k → handlesWorkorder k = false := by
  intro i k hk
  by_cases hi : i < n
  · have ha := List.all_eq_true.mp hr i (List.mem_range.mpr hi)
    rw [hk] at ha
    simpa using ha
  · have ht := play_tasks ms hms h (Nat.le_of_not_lt hi)
    have hnone : (freshPool env config).tasks i = none := by
      match i, hi with
      | 0, hi | 1, hi | 2, hi => omega
      | i+3, _ => rfl
    rw [Pool.kinds,ht,hnone] at hk
    cases hk

def clearOutsideCheck (s : Server) (_ : ℕ → Option TaskKind) : ServerLabel → Bool
  | .act _ _ (.clearActive x) _ => !(s.submissionLock && s.markerOf x == none)
  | _ => true

theorem clearsOutside_of_check (s : Server) (kinds : ℕ → Option TaskKind) (l : ServerLabel)
    (h : clearOutsideCheck s kinds l) : clearsOutsideSubmit s kinds l := by
  unfold clearOutsideCheck at h
  unfold clearsOutsideSubmit
  split
  · rintro ⟨hl,hm,-⟩
    simp [hl,hm] at h
  · trivial

def resubmitMoves : List (Move TaskKind ServerOracle) :=
  [.start 3 (.submit (sampleRequest "c1"))] ++ acts 16 3 9 "w1" ++ [.next 3] ++
    [.start 4 (.cancel "w1")] ++ acts 6 4 9 "w1" ++ [.next 4] ++
    [.start 3 (.submit (sampleRequest "c1"))] ++ acts 16 3 9 "w2" ++ [.next 3]

theorem resubmit_marks_active :
    ∃ P0 ls P, Started plainCodecs .default P0 ∧
      Run (serverSystem plainCodecs .default) clearsOutsideSubmit P0 ls P ∧
      (∀ i k, P.kinds i = some k → handlesWorkorder k = false) ∧
      P.shared.markerOf "c1" = some "w2" ∧
      ∃ st, P.shared.statusOf "w2" = some st ∧ st.active := by
  have hp : (play (serverSystem plainCodecs .default) clearOutsideCheck resubmitMoves
      (freshPool plainCodecs .default)).any
        (fun r => atRestBelow 10 r.2 && r.2.shared.markerOf "c1" == some "w2") := by
    decide
  obtain ⟨⟨ls,P⟩,hplay,h⟩ := (Option.any_eq_true _ _).mp hp
  simp only [Bool.and_eq_true,beq_iff_eq] at h
  have run := run_of_play clearsOutside_of_check resubmitMoves hplay
  have rest := rest_of_play (by decide) (by decide) hplay h.1
  exact ⟨_,ls,P,started_fresh _ _,run,rest,h.2,
    marker_names_active_workorder (started_fresh _ _) run rest h.2⟩

def cancelInSubmitMoves : List (Move TaskKind ServerOracle) :=
  [.start 3 (.submit (sampleRequest "c1"))] ++ acts 7 3 9 "w1" ++
    [.start 4 (.cancel "w1")] ++ acts 6 4 9 "w1" ++ [.next 4] ++ acts 9 3 9 "w1" ++ [.next 3]

/-- Nothing is in progress, and the client is marked with a cancelled workorder. -/
theorem marker_names_cancelled_workorder :
    ∃ P0 ls P, Started plainCodecs .default P0 ∧
      Run (serverSystem plainCodecs .default) unrestricted P0 ls P ∧
      (∀ i k, P.kinds i = some k → handlesWorkorder k = false) ∧
      P.shared.markerOf "c1" = some "w1" ∧ P.shared.statusOf "w1" = some .cancelled := by
  have hp : (play (serverSystem plainCodecs .default) anyStep cancelInSubmitMoves
      (freshPool plainCodecs .default)).any
        (fun r => atRestBelow 10 r.2 && (r.2.shared.markerOf "c1" == some "w1" &&
          r.2.shared.statusOf "w1" == some .cancelled)) := by
    decide
  obtain ⟨⟨ls,P⟩,hplay,h⟩ := (Option.any_eq_true _ _).mp hp
  simp only [Bool.and_eq_true,beq_iff_eq] at h
  exact ⟨_,ls,P,started_fresh _ _,run_of_play anyStep_unrestricted cancelInSubmitMoves hplay,
    rest_of_play (by decide) (by decide) hplay h.1,h.2⟩

end Remerge.ClientLockout
