import Remerge.AdmissionCap

/-!
# Markers of active workorders

The registry keeps one marker per client; a submit sets it after the workorder
is already visible, processors and cancels clear it without naming the
workorder they clear it for. In runs where a clear never meets the marker of
another workorder and no ended workorder is revived, every active
workorder is marked, or its submit is about to mark it. Then no client has two.
-/

set_option autoImplicit false

namespace Remerge.ActiveMarkers
open StepProgram Interleaving SnapshotTypes SnapshotStore SnapshotCleanup ServerState ServerOps
open ServerTasks ServerPhases ServerCore WorkorderIdentity StatusLifecycle AdmissionCap Function

variable {id : WorkorderId} {config : ServerConfig} {c c' : Core} {g g' : Phases}
  {l : ServerLabel}

def entering : TaskKind × Phase → Option ClientId
  | (.submit req,.admitted _) => some req.clientId
  | (.submit req,.inserted _) => some req.clientId
  | _ => none

def window : TaskKind × Phase → Option (ClientId × WorkorderId)
  | (.submit req,.inserted id) => some (req.clientId,id)
  | _ => none

def clearing : TaskKind × Phase → Option (ClientId × WorkorderId)
  | (.process w,.ended) => some (w.clientId,w.id)
  | (.cancel id,.mustClear c) => some (c,id)
  | _ => none

theorem entering_rests : RestsIdle entering := fun k => by cases k <;> rfl
theorem window_rests : RestsIdle window := fun k => by cases k <;> rfl
theorem clearing_rests : RestsIdle clearing := fun k => by cases k <;> rfl

theorem window_final (k : TaskKind) (q : Phase) (k' : Option TaskKind) (h : phaseFinal k q k') :
    window (k,q) = none := by
  cases k with
  | submit req => rcases h.2 with rfl | rfl <;> rfl
  | _ => rfl

theorem clearing_final (k : TaskKind) (q : Phase) (k' : Option TaskKind)
    (h : phaseFinal k q k') : clearing (k,q) = none := by
  cases k with
  | process w => rcases h.2 with rfl | rfl | rfl <;> rfl
  | cancel id => rw [h.2]; rfl
  | _ => rfl

variable {t : TaskKind × Phase} {x : ClientId}

theorem holdsLock_of_entering (h : entering t = some x) : holdsLock t = some () := by
  obtain ⟨k,q⟩ := t
  cases k with
  | submit req => cases q <;> first | rfl | cases h
  | _ => cases h

theorem entering_of_window (h : window t = some (x,id)) : entering t = some x := by
  obtain ⟨k,q⟩ := t
  cases k with
  | submit req =>
    cases q <;> first
      | (cases h; rfl)
      | cases h
  | _ => cases h

theorem mentions_of_clearing (h : clearing t = some (x,id)) : mentions t = some id := by
  obtain ⟨k,q⟩ := t
  cases k with
  | process w | cancel id' =>
    cases q <;> first
      | (cases h; rfl)
      | cases h
  | _ => cases h

theorem markerOf_insert (c : Core) (x y : ClientId) (cs : ClientState)
    (hcs : cs.activeWorkorder = none) (hm : c.markerOf x = none) :
    ({ c with clients := c.clients.insert x cs } : Core).markerOf y = c.markerOf y := by
  unfold Core.markerOf at hm ⊢
  rw [AList.lookup_insert_ite]
  split
  · next e =>
    rw [e,hm]
    exact hcs
  · rfl

theorem markerOf_setActive (c : Core) (x y : ClientId) (id : WorkorderId) :
    ({ c with clients := setActiveWorkorder x id c.clients } : Core).markerOf y =
      if y = x then (c.clients.lookup x).map (fun _ => id) else c.markerOf y := by
  unfold Core.markerOf setActiveWorkorder
  rw [AList.lookup_modify]
  split
  · cases c.clients.lookup x <;> rfl
  · rfl

theorem markerOf_clearActive (c : Core) (x y : ClientId) :
    ({ c with clients := clearActiveWorkorder x c.clients } : Core).markerOf y =
      if y = x then none else c.markerOf y := by
  unfold Core.markerOf clearActiveWorkorder
  rw [AList.lookup_modify]
  split
  · cases c.clients.lookup x <;> rfl
  · rfl

theorem registered_modify (t : Table ClientId ClientState) (x y : ClientId)
    (f : ClientState → ClientState) (h : t.lookup y ≠ none) : (t.modify x f).lookup y ≠ none := by
  rw [AList.lookup_modify]
  split
  · next e =>
    subst e
    simpa using h
  · exact h

structure Entering (c : Core) (g : Phases) : Prop where
  locked : Locked c g
  unmarked : ∀ i x, roleAt g entering i = some x → c.markerOf x = none ∧ c.clients.lookup x ≠ none

theorem Entering.alone (h : Entering c g) {i a : ℕ} (ht : g i = some t) (hl : holdsLock t = some ())
    (ha : roleAt g entering a = some x) : a = i := by
  obtain ⟨u,hu,he⟩ := roleAt_eq_some.mp ha
  have ha' : roleAt g holdsLock a = some () :=
    roleAt_eq_some.mpr ⟨u,hu,holdsLock_of_entering he⟩
  exact h.locked.once a i () ha' ((roleAt_some ht holdsLock).trans hl)

theorem entering_act (h : Entering c g) {i j : ℕ} {k : TaskKind} {q q' : Phase} {o : ServerOp}
    {x : Option (TaskKind × Phase)}
    (hl : Locked c' (update (update g i (some (k,q'))) j x))
    (ht : g i = some (k,q)) (hs : CoreStep config k q c o q' c') (free : g j = none)
    (hx : Idle x) :
    Entering c' (update (update g i (some (k,q'))) j x) := by
  refine ⟨hl,fun a y ha => ?_⟩
  have hi : roleAt g entering i = entering (k,q) := roleAt_some ht entering
  -- Either the task was entering before, or it has just been admitted.
  have before : roleAt g entering a = some y ∨ (a = i ∧ entering (k,q') = some y) := by
    rcases held_act entering_rests ht free hx ha with he | ⟨-,he⟩
    · exact .inr he
    · exact .inl he
  cases hs with
  | accept hq hm hcs =>
    rename_i req id role ch sh cs
    have hlock : holdsLock (.submit req,q) = some () := by rcases hq with rfl | ⟨rfl,-⟩ <;> rfl
    have hy : y = req.clientId := by
      rcases before with he | ⟨-,he⟩
      · have hai := h.alone ht hlock he
        subst hai
        rw [hi] at he
        rcases hq with rfl | ⟨rfl,-⟩ <;> cases he
      · exact (Option.some.inj he).symm
    subst hy
    refine ⟨?_,?_⟩
    · rw [markerOf_insert c _ _ cs hcs hm]
      exact hm
    · change (c.clients.insert req.clientId cs).lookup req.clientId ≠ none
      rw [AList.lookup_insert_ite,if_pos rfl]
      exact Option.some_ne_none cs
  | setActive =>
    rcases before with he | ⟨-,he⟩
    · have hai := h.alone ht rfl he
      subst hai
      rcases held_act entering_rests ht free hx ha with ⟨-,he⟩ | ⟨hne,-⟩
      · cases he
      · exact absurd rfl hne
    · cases he
  | cancelClear | endClear =>
    rcases before with he | ⟨-,he⟩
    · refine ⟨?_,registered_modify _ _ _ _ (h.unmarked a y he).2⟩
      rw [markerOf_clearActive]
      split
      · rfl
      · exact (h.unmarked a y he).1
    · cases he
  | insert _ _ | plain _ =>
    rcases before with he | ⟨-,he⟩
    · exact h.unmarked a y he
    · exact h.unmarked i y (hi.trans he)
  | _ =>
    rcases before with he | ⟨-,he⟩
    · exact h.unmarked a y he
    · cases he

theorem entering_step (h : Entering c g) (hs : PhaseStep config c g l c' g') : Entering c' g' := by
  have hl := locked_step h.locked hs
  cases hs with
  | turn hx hg hn => exact ⟨hl,fun a y ha => h.unmarked a y (held_turn entering_rests hx ha)⟩
  | spawn ht free =>
    refine ⟨hl,fun a y ha => ?_⟩
    rcases held_spawn rfl ha with ⟨-,he⟩ | ⟨-,-,he⟩
    · cases he
    · exact h.unmarked a y he
  | act ht hs free hx => exact entering_act h hl ht hs free hx

theorem entering_start (c : Core) : Entering c startPhases := by
  refine ⟨locked_start c,fun i x hi => ?_⟩
  rw [startPhases_role entering_rests] at hi
  cases hi

theorem window_kept (hs : PhaseStep config c g l c' g') {a : ℕ} {v : ClientId × WorkorderId}
    (ha : roleAt g window a = some v)
    (hn : ∀ i k x id r, l ≠ .act i k (.setActive x id) r) : roleAt g' window a = some v := by
  refine role_kept window_rests window_final (fun _ => rfl) hs ha ?_
  intro k q q' o r hl hs hw
  cases hs with
  | setActive => exact absurd hl (hn _ _ _ _ _)
  | accept hq _ _ => rcases hq with rfl | ⟨rfl,-⟩ <;> cases hw
  | refuse hq => rcases hq with rfl | rfl <;> cases hw
  | _ => first | exact hw | cases hw

def forWorkorder : TaskKind → Option WorkorderId
  | .process w => some w.id
  | .cancel id => some id
  | _ => none

/-- A clear finds no marker, or that of the workorder it is done for. -/
def clearsOwnMarker : ServerCondition := fun s _ l => match l with
  | .act _ k (.clearActive x) _ => s.markerOf x = none ∨ s.markerOf x = forWorkorder k
  | _ => True

/-- Both conditions: no ended workorder is revived, no foreign marker cleared. -/
def markersKept : ServerCondition := fun s kinds l =>
  revivesNone s kinds l ∧ clearsOwnMarker s kinds l

structure Marked (c : Core) (g : Phases) : Prop where
  identity : Identity c g
  entering : Entering c g
  marked : ∀ id w, c.workorders.lookup id = some w → w.isActive →
    c.markerOf w.clientId = some id ∨ ∃ i, roleAt g window i = some (w.clientId,id)
  ended : ∀ i x id, roleAt g clearing i = some (x,id) →
    ∀ w, c.workorders.lookup id = some w → w.isActive = false

def NoneRevived (c c' : Core) : Prop :=
  ∀ id w, c'.workorders.lookup id = some w → w.isActive →
    ∃ v, c.workorders.lookup id = some v ∧ v.isActive ∧ v.clientId = w.clientId

theorem noneRevived_refl (c : Core) : NoneRevived c c := fun _ w hl ha => ⟨w,hl,ha,rfl⟩

variable {i : ℕ} {k : TaskKind} {q q' : Phase} {o : ServerOp}

theorem noneRevived_insert {u v : Workorder} (hl : c.workorders.lookup id = some v)
    (ha : u.isActive → v.isActive) (hc : u.clientId = v.clientId) :
    NoneRevived c { c with workorders := c.workorders.insert id u } := by
  intro id' w hw hact
  change (c.workorders.insert id u).lookup id' = some w at hw
  rw [AList.lookup_insert_ite] at hw
  split at hw
  · next e =>
    cases hw
    exact ⟨v,e ▸ hl,ha hact,hc.symm⟩
  · exact ⟨w,hw,hact,rfl⟩

theorem noneRevived_modify {now : Time} {st : WorkorderStatus}
    (ha : ∀ v, c.workorders.lookup id = some v → st.active → v.isActive) :
    NoneRevived c { c with workorders := c.workorders.modify id (writeStatus now st) } := by
  intro id' w hw hact
  change (c.workorders.modify id (writeStatus now st)).lookup id' = some w at hw
  rw [AList.lookup_modify] at hw
  split at hw
  · next e =>
    obtain ⟨v,hv,rfl⟩ := Option.map_eq_some_iff.mp hw
    exact ⟨v,e ▸ hv,ha v hv hact,rfl⟩
  · exact ⟨w,hw,hact,rfl⟩

theorem marked_quiet (h : Marked c g) (hi : Identity c' g') (he : Entering c' g')
    (hact : NoneRevived c c') (hmark : ∀ x, c'.markerOf x = c.markerOf x)
    (hwin : ∀ a v, roleAt g window a = some v → roleAt g' window a = some v)
    (hclr : ∀ a x id, roleAt g' clearing a = some (x,id) →
      roleAt g clearing a = some (x,id) ∨
        ∀ w, c'.workorders.lookup id = some w → w.isActive = false) : Marked c' g' := by
  refine ⟨hi,he,?_,?_⟩
  · intro id w hl ha
    obtain ⟨v,hv,hva,hc⟩ := hact id w hl ha
    rw [hmark,← hc]
    rcases h.marked id v hv hva with hm | ⟨i,hw⟩
    · exact .inl hm
    · exact .inr ⟨i,hwin i _ hw⟩
  · intro a x id ha w hl
    rcases hclr a x id ha with hc | hc
    · by_contra hw
      obtain ⟨v,hv,hva,-⟩ := hact id w hl (by simpa using hw)
      rw [h.ended a x id hc v hv] at hva
      cases hva
    · exact hc w hl

variable {req : SubmitRequest} {w : Workorder}

theorem marked_insert (h : Marked c g)
    (hi : Identity { c with workorders := c.workorders.insert w.id w } g')
    (he : Entering { c with workorders := c.workorders.insert w.id w } g')
    (ht : g i = some (.submit req,.admitted w.id)) (hc : w.clientId = req.clientId)
    (hwin : ∀ a v, roleAt g window a = some v → roleAt g' window a = some v)
    (hnew : roleAt g' window i = some (req.clientId,w.id))
    (hclr : ∀ a v, roleAt g' clearing a = some v → roleAt g clearing a = some v) :
    Marked { c with workorders := c.workorders.insert w.id w } g' := by
  refine ⟨hi,he,?_,?_⟩
  · intro id v hl ha
    change (c.workorders.insert w.id w).lookup id = some v at hl
    rw [AList.lookup_insert_ite] at hl
    split at hl
    · next e =>
      cases hl
      exact .inr ⟨i,by rw [e,hc]; exact hnew⟩
    · rcases h.marked id v hl ha with hm | ⟨a,hw⟩
      · exact .inl hm
      · exact .inr ⟨a,hwin a _ hw⟩
  · intro a x id ha v hl
    -- Nobody works on an identifier that is still reserved.
    have hold := hclr a _ ha
    have hne : id ≠ w.id := by
      intro e
      obtain ⟨t,hg,hcl⟩ := roleAt_eq_some.mp hold
      exact (h.identity.reserved i w.id (roleAt_some ht reserves)).2.2 a
        (e ▸ roleAt_eq_some.mpr ⟨t,hg,mentions_of_clearing hcl⟩)
    change (c.workorders.insert w.id w).lookup id = some v at hl
    rw [AList.lookup_insert_ite,if_neg hne] at hl
    exact h.ended a x id hold v hl

theorem marked_setActive (h : Marked c g)
    (hi : Identity { c with clients := setActiveWorkorder req.clientId id c.clients } g')
    (he : Entering { c with clients := setActiveWorkorder req.clientId id c.clients } g')
    (ht : g i = some (.submit req,.inserted id))
    (hwin : ∀ a v, a ≠ i → roleAt g window a = some v → roleAt g' window a = some v)
    (hclr : ∀ a v, roleAt g' clearing a = some v → roleAt g clearing a = some v) :
    Marked { c with clients := setActiveWorkorder req.clientId id c.clients } g' := by
  obtain ⟨hnone,hreg⟩ := h.entering.unmarked i req.clientId (roleAt_some ht entering)
  refine ⟨hi,he,?_,fun a x id' ha => h.ended a x id' (hclr a _ ha)⟩
  intro id' w hl ha
  rw [markerOf_setActive]
  rcases h.marked id' w hl ha with hm | ⟨a,hw⟩
  · have hne : w.clientId ≠ req.clientId := fun e => by
      rw [e,hnone] at hm
      cases hm
    rw [if_neg hne]
    exact .inl hm
  · by_cases hai : a = i
    · subst hai
      have hv := (roleAt_some ht window).symm.trans hw
      obtain ⟨hx,hid⟩ := Prod.mk.inj (Option.some.inj hv)
      left
      rw [if_pos hx.symm,← hid]
      obtain ⟨cs,hcs⟩ := Option.ne_none_iff_exists'.mp hreg
      rw [hcs]
      rfl
    · exact .inr ⟨a,hwin a _ hai hw⟩

theorem marked_clear (h : Marked c g)
    (hi : Identity { c with clients := clearActiveWorkorder x c.clients } g')
    (he : Entering { c with clients := clearActiveWorkorder x c.clients } g')
    (ht : roleAt g clearing i = some (x,id)) (hown : c.markerOf x = none ∨ c.markerOf x = some id)
    (hwin : ∀ a v, roleAt g window a = some v → roleAt g' window a = some v)
    (hclr : ∀ a v, roleAt g' clearing a = some v → roleAt g clearing a = some v) :
    Marked { c with clients := clearActiveWorkorder x c.clients } g' := by
  refine ⟨hi,he,?_,fun a y id' ha => h.ended a y id' (hclr a _ ha)⟩
  intro id' w hl ha
  rw [markerOf_clearActive]
  rcases h.marked id' w hl ha with hm | ⟨a,hw⟩
  · by_cases e : w.clientId = x
    · -- The marker is that of the ended workorder, which is not active.
      rw [e] at hm
      rcases hown with hn | hn
      · rw [hn] at hm
        cases hm
      · rw [hn] at hm
        cases hm
        rw [h.ended i x id ht w hl] at ha
        cases ha
    · rw [if_neg e]
      exact .inl hm
  · exact .inr ⟨a,hwin a _ hw⟩

structure Keeping (c : Core) (k : TaskKind) (o : ServerOp) : Prop where
  revives : RevivesNone c o
  clears : ∀ x, o = .clearActive x → c.markerOf x = none ∨ c.markerOf x = forWorkorder k

def LabelKeeping (c : Core) : ServerLabel → Prop
  | .act _ k o _ => Keeping c k o
  | _ => True

theorem keeping_of_condition {s : Server} {kinds : ℕ → Option TaskKind}
    (h : markersKept s kinds l) : LabelKeeping (core s) l := by
  cases l with
  | act i k o r =>
    refine ⟨revivesNone_of_condition (l := .act i k o r) h.1,?_⟩
    intro x e
    subst e
    exact h.2
  | _ => trivial

theorem noneRevived_of_step (hs : CoreStep config k q c o q' c') (hb : RevivesNone c o)
    (hn : ∀ w, o ≠ .insertWorkorder w) : NoneRevived c c' := by
  cases hs with
  | insert _ _ => exact absurd rfl (hn _)
  | cancelHit hl _ => exact noneRevived_insert hl (fun ha => by cases ha) rfl
  | claimHit hl hp =>
    refine noneRevived_insert hl (fun _ => ?_) rfl
    simp [Workorder.isActive,hp,WorkorderStatus.active]
  | build => exact noneRevived_modify fun v hv _ => hb _ _ rfl rfl v.status (statusOf_of_lookup hv)
  | finish _ ht =>
    refine noneRevived_modify fun v _ ha => ?_
    rw [WorkorderStatus.terminal_eq,ha] at ht
    cases ht
  | evict he _ =>
    intro id w hl ha
    rcases he id with e | ⟨e,-⟩
    · exact ⟨w,e ▸ hl,ha,rfl⟩
    · have hn := e.symm.trans hl
      cases hn
  | _ => exact noneRevived_refl c

theorem clearing_begins (hs : CoreStep config k q c o q' c') (hc : clearing (k,q') = some (x,id)) :
    clearing (k,q) = some (x,id) ∨ ∀ w, c'.workorders.lookup id = some w → w.isActive = false := by
  cases hs with
  | cancelHit hl _ =>
    cases hc
    right
    intro w hw
    rw [AList.lookup_insert_ite,if_pos rfl] at hw
    cases hw
    rfl
  | finish _ ht =>
    cases hc
    right
    intro w hw
    rw [AList.lookup_modify,if_pos rfl] at hw
    obtain ⟨v,-,rfl⟩ := Option.map_eq_some_iff.mp hw
    rw [WorkorderStatus.terminal_eq] at ht
    simpa [Workorder.isActive,writeStatus] using ht
  | plain _ => exact .inl hc
  | _ => cases hc

theorem marked_act (h : Marked c g) {j : ℕ} (r : ServerRes o) {x : Option (TaskKind × Phase)}
    (ht : g i = some (k,q)) (hs : CoreStep config k q c o q' c') (free : g j = none) (hx : Idle x)
    (hk : Keeping c k o) : Marked c' (update (update g i (some (k,q'))) j x) := by
  have step : PhaseStep config c g (.act i k o r) c'
    (update (update g i (some (k,q'))) j x) := .act ht hs free hx
  have hi := identity_step h.identity step
  have he := entering_step h.entering step
  have hci : roleAt g clearing i = clearing (k,q) := roleAt_some ht clearing
  have hwin : (∀ y id, o ≠ .setActive y id) → ∀ a v, roleAt g window a = some v →
      roleAt (update (update g i (some (k,q'))) j x) window a = some v := by
    intro hn a v ha
    refine window_kept step ha fun i' k' y id r' e => ?_
    cases e
    exact hn y id rfl
  have hclr : clearing (k,q') = none → ∀ a v,
      roleAt (update (update g i (some (k,q'))) j x) clearing a = some v →
      roleAt g clearing a = some v := by
    intro hn a v ha
    rcases held_act clearing_rests ht free hx ha with ⟨-,e⟩ | ⟨-,e⟩
    · rw [hn] at e
      cases e
    · exact e
  have quiet : (∀ w, o ≠ .insertWorkorder w) → (∀ y id, o ≠ .setActive y id) →
      (∀ y, c'.markerOf y = c.markerOf y) →
      Marked c' (update (update g i (some (k,q'))) j x) := by
    intro hn hna hm
    refine marked_quiet h hi he (noneRevived_of_step hs hk.revives hn) hm (hwin hna) ?_
    intro a y id ha
    rcases held_act clearing_rests ht free hx ha with ⟨rfl,e⟩ | ⟨-,e⟩
    · rcases clearing_begins hs e with e | e
      · exact .inl (hci.trans e)
      · exact .inr e
    · exact .inl e
  cases hs with
  | insert hc _ =>
    refine marked_insert h hi he ht hc (hwin (by simp)) ?_ (hclr rfl)
    rw [roleAt_act window_rests ht free hx,update_self]
    rfl
  | setActive =>
    refine marked_setActive h hi he ht ?_ (hclr rfl)
    intro a v hne ha
    rw [roleAt_act window_rests ht free hx,update_of_ne hne]
    exact ha
  | cancelClear | endClear =>
    exact marked_clear h hi he hci (hk.clears _ rfl) (hwin (by simp)) (hclr rfl)
  | accept _ hm hcs => exact quiet (by simp) (by simp) fun y => markerOf_insert c _ y _ hcs hm
  | plain hp =>
    refine quiet (fun w e => ?_) (fun y id e => ?_) fun y => rfl
    · subst e
      cases hp
    · subst e
      cases hp
  | _ => exact quiet (by simp) (by simp) fun y => rfl

theorem marked_step (h : Marked c g) (hs : PhaseStep config c g l c' g')
    (hk : LabelKeeping c l) : Marked c' g' := by
  cases hs with
  | act ht hs free hx =>
    rename_i r _
    exact marked_act h r ht hs free hx hk
  | turn hx hg hl =>
    rename_i i x
    have step : PhaseStep config c g l c (update g i x) := .turn hx hg hl
    refine marked_quiet h (identity_step h.identity step) (entering_step h.entering step)
      (noneRevived_refl c) (fun _ => rfl) (fun a v ha => ?_)
      (fun a x id ha => .inl (held_turn clearing_rests hx ha))
    exact window_kept step ha fun i k x id r => hl i k _ r
  | spawn ht free =>
    rename_i i j w r
    have step : PhaseStep config c g (.act i .queue (.spawnProcess w) r) c
      (update (update g i (some (.queue,.finished))) j
        (some (.process w,.provisioning))) := .spawn ht free
    refine marked_quiet h (identity_step h.identity step) (entering_step h.entering step)
      (noneRevived_refl c) (fun _ => rfl) (fun a v ha => window_kept step ha (by simp)) ?_
    intro a x id ha
    rcases held_spawn rfl ha with ⟨-,e⟩ | ⟨-,-,e⟩
    · cases e
    · exact .inl e

theorem Marked.one_active (h : Marked c g) {id' : WorkorderId} {w' : Workorder}
    (hl : c.workorders.lookup id = some w) (hl' : c.workorders.lookup id' = some w')
    (ha : w.isActive) (ha' : w'.isActive) (hc : w.clientId = w'.clientId) :
    id = id' := by
  -- A submit in its window excludes both a marker and another window.
  have apart : ∀ {i : ℕ} {x : ClientId} {v : WorkorderId}, roleAt g window i = some (x,v) →
      roleAt g ActiveMarkers.entering i = some x := by
    intro i x v hw
    obtain ⟨t,ht,hw⟩ := roleAt_eq_some.mp hw
    exact roleAt_eq_some.mpr ⟨t,ht,entering_of_window hw⟩
  rcases h.marked id w hl ha with hm | ⟨i,hw⟩ <;>
    rcases h.marked id' w' hl' ha' with hm' | ⟨i',hw'⟩
  · rw [hc,hm'] at hm
    exact (Option.some.inj hm).symm
  · rw [hc,(h.entering.unmarked i' _ (apart hw')).1] at hm
    cases hm
  · rw [← hc,(h.entering.unmarked i _ (apart hw)).1] at hm'
    cases hm'
  · obtain ⟨t,ht,ho⟩ := roleAt_eq_some.mp (apart hw)
    have hii := h.entering.alone ht (holdsLock_of_entering ho) (apart hw')
    subst hii
    rw [hw] at hw'
    exact (Prod.mk.inj (Option.some.inj hw')).2

end Remerge.ActiveMarkers
