import Remerge.StatusLifecycle

/-!
# The admission cap

Submissions count the active workorders under the submission lock. All other
tasks write statuses without it, so the bound rests on what they write: as long
as no write turns an ended workorder active again, only an admitted submit
raises the count, and it has just seen room. An ended workorder that comes
back to life takes a place that was given away.
-/

set_option autoImplicit false

namespace Remerge.AdmissionCap
open StepProgram Interleaving SnapshotTypes SnapshotStore SnapshotCleanup ServerState ServerOps
open ServerTasks ServerPhases ServerCore WorkorderIdentity Function

/-- Pending, Provisioning or Building is never written over an ended status. -/
def revivesNone : ServerCondition := fun s _ l => match l with
  | .act _ _ (.setStatus id st) _ =>
    st.active → ∀ old, s.statusOf id = some old → old.active
  | _ => True

def hasRoom : TaskKind × Phase → Option Unit
  | (.submit _,.room _) => some ()
  | (.submit _,.admitted _) => some ()
  | _ => none

theorem hasRoom_rests : RestsIdle hasRoom := fun k => by cases k <;> rfl

theorem holdsLock_of_hasRoom {t : TaskKind × Phase} {u : Unit} (h : hasRoom t = some u) :
    holdsLock t = some u := by
  obtain ⟨k,q⟩ := t
  cases k with
  | submit req => cases q <;> first | exact h | cases h
  | _ => cases h

structure Capped (config : ServerConfig) (c : Core) (g : Phases) : Prop where
  locked : Locked c g
  bound : c.activeCount ≤ config.maxActiveWorkorders
  room : ∀ i, roleAt g hasRoom i = some () → c.activeCount < config.maxActiveWorkorders

section
variable {config : ServerConfig} {c c' : Core} {g g' : Phases} {l : ServerLabel}

def RevivesNone (c : Core) (o : ServerOp) : Prop :=
  ∀ id st, o = .setStatus id st → st.active → ∀ old, c.statusOf id = some old → old.active

variable {k : TaskKind} {q q' : Phase} {o : ServerOp}

theorem activeCount_step (hs : CoreStep config k q c o q' c') (hb : RevivesNone c o) :
    c'.activeCount ≤ c.activeCount ∨
      (c'.activeCount ≤ c.activeCount+1 ∧ hasRoom (k,q) = some () ∧ hasRoom (k,q') = none) := by
  cases hs with
  | insert _ _ => exact .inr ⟨AList.count_insert_le _ _ _ _,rfl,rfl⟩
  | cancelHit hl _ => exact .inl (AList.count_insert_over _ _ hl (by simp [Workorder.isActive,
      WorkorderStatus.active]))
  | claimHit hl hp =>
    refine .inl (AList.count_insert_over _ _ hl fun _ => ?_)
    simp [Workorder.isActive,hp,WorkorderStatus.active]
  | build =>
    refine .inl (AList.count_modify_le _ _ _ _ fun v hv _ => ?_)
    exact hb _ _ rfl rfl v.status (StatusLifecycle.statusOf_of_lookup hv)
  | finish _ ht =>
    rename_i w now st _
    refine .inl (AList.count_modify_le _ _ _ _ fun v _ ha => ?_)
    have hact : st.active := ha
    rw [WorkorderStatus.terminal_eq,hact] at ht
    cases ht
  | evict _ hn => exact .inl hn
  | _ => exact .inl le_rfl

theorem capped_act (h : Capped config c g) (hpos : 0 < config.maxActiveWorkorders) {i j : ℕ}
    {x : Option (TaskKind × Phase)} (hl : Locked c' (update (update g i (some (k,q'))) j x))
    (ht : g i = some (k,q)) (hs : CoreStep config k q c o q' c') (free : g j = none) (hx : Idle x)
    (hb : RevivesNone c o) : Capped config c' (update (update g i (some (k,q'))) j x) := by
  rcases activeCount_step hs hb with hle | ⟨hle,hroom,hdone⟩
  · refine ⟨hl,hle.trans h.bound,fun a ha => lt_of_le_of_lt hle ?_⟩
    rcases held_act hasRoom_rests ht free hx ha with ⟨-,he⟩ | ⟨-,he⟩
    · -- Room is what the count under the lock has just shown.
      cases hs with
      | room hn => exact hn
      | accept hq _ _ =>
        rcases hq with rfl | ⟨-,hz⟩
        · exact h.room i (roleAt_some ht hasRoom)
        · omega
      | plain _ => exact h.room i ((roleAt_some ht hasRoom).trans he)
      | _ => cases he
    · exact h.room a he
  · have hn := h.room i ((roleAt_some ht hasRoom).trans hroom)
    refine ⟨hl,by omega,fun a ha => ?_⟩
    -- The inserting submit held the lock, so no other one has seen room.
    rcases held_act hasRoom_rests ht free hx ha with ⟨-,he⟩ | ⟨hne,he⟩
    · rw [hdone] at he
      cases he
    · obtain ⟨t,hg,ho⟩ := roleAt_eq_some.mp he
      have hta : roleAt g holdsLock a = some () :=
        roleAt_eq_some.mpr ⟨t,hg,holdsLock_of_hasRoom ho⟩
      have hti : roleAt g holdsLock i = some () :=
        (roleAt_some ht holdsLock).trans (holdsLock_of_hasRoom hroom)
      exact absurd (h.locked.once a i () hta hti) hne

def LabelRevivesNone (c : Core) : ServerLabel → Prop
  | .act _ _ o _ => RevivesNone c o
  | _ => True

theorem revivesNone_of_condition {s : Server} {kinds : ℕ → Option TaskKind}
    (h : revivesNone s kinds l) : LabelRevivesNone (core s) l := by
  cases l with
  | act i k o r =>
    intro id st e
    subst e
    exact h
  | _ => trivial

theorem capped_step (h : Capped config c g) (hpos : 0 < config.maxActiveWorkorders)
    (hs : PhaseStep config c g l c' g') (hb : LabelRevivesNone c l) : Capped config c' g' := by
  have hl := locked_step h.locked hs
  cases hs with
  | turn hx hg hn =>
    exact ⟨hl,h.bound,fun a ha => h.room a (held_turn hasRoom_rests hx ha)⟩
  | spawn ht free =>
    refine ⟨hl,h.bound,fun a ha => ?_⟩
    rcases held_spawn rfl ha with ⟨-,he⟩ | ⟨-,-,he⟩
    · cases he
    · exact h.room a he
  | act ht hs free hx => exact capped_act h hpos hl ht hs free hx hb

end

variable {env : Codecs} {config : ServerConfig}

/-- From an empty server, in every run in which no write turns an ended
workorder active again, no more workorders are active than the cap allows. -/
theorem active_within_cap {now : Time} {store : StoredEntries} {issued : List Uuid}
    {ls : List ServerLabel} {P : ServerPool} (hpos : 0 < config.maxActiveWorkorders)
    (run : Run (serverSystem env config) revivesNone
      (startPool env config (boot config now store emptyDisk issued)) ls P) :
    P.shared.activeCount ≤ config.maxActiveWorkorders := by
  have start : Capped config (core (boot config now store emptyDisk issued)) startPhases := by
    refine ⟨locked_start _,Nat.zero_le _,fun a ha => ?_⟩
    rw [startPhases_role hasRoom_rests] at ha
    cases ha
  obtain ⟨⟨g,-,h⟩,-⟩ := run_invariant (phases_obeyed env config)
    (fun s g => Capped config (core s) g) (fun _ => True)
    (fun s g l s' g' h hs hc =>
      ⟨capped_step h hpos (phaseStep_of_ghost hs) (revivesNone_of_condition hc),trivial⟩)
    run ⟨startPhases,tracks_start _ _ _,start⟩
  exact h.bound

def oneActive : ServerConfig := { ServerConfig.default with maxActiveWorkorders := 1 }

def revivesNoneCheck (s : Server) (_ : ℕ → Option TaskKind) : ServerLabel → Bool
  | .act _ _ (.setStatus id st) _ => !st.active || (s.statusOf id).all (·.active)
  | _ => true

theorem revivesNone_of_check (s : Server) (kinds : ℕ → Option TaskKind) (l : ServerLabel)
    (h : revivesNoneCheck s kinds l) : revivesNone s kinds l := by
  unfold revivesNoneCheck at h
  unfold revivesNone
  split
  · intro hst old hold
    simpa [hst,hold] using h
  · trivial

def provisionMoves : List (Move TaskKind ServerOracle) :=
  [.start 3 (.submit (sampleRequest "c1"))] ++ acts 16 3 9 "w1" ++ acts 7 0 4 "w1" ++acts 4 4 9 "w1"

/-- A workorder is built while a second client is turned away. -/
theorem capped_while_building :
    ∃ ls P, Run (serverSystem plainCodecs oneActive) revivesNone
        (freshPool plainCodecs oneActive) ls P ∧
      P.shared.statusOf "w1" = some .building ∧ P.shared.activeCount ≤ 1 := by
  obtain ⟨ls,P,run,hb⟩ := exists_run_of_play (serverSystem plainCodecs oneActive)
    revivesNone_of_check
    (provisionMoves ++ acts 4 4 9 "w1" ++ [.start 5 (.submit (sampleRequest "c2"))] ++
      acts 4 5 9 "w2")
    (freshPool plainCodecs oneActive) (fun _ P => P.shared.statusOf "w1" == some .building)
    (by decide)
  have hcap := active_within_cap (by decide) run
  exact ⟨ls,P,run,by simpa using hb,hcap⟩

/-- A cancelled workorder frees its place and then comes back as Building. -/
theorem two_active_under_cap_one :
    ∃ ls P, Run (serverSystem plainCodecs oneActive) unrestricted
        (freshPool plainCodecs oneActive) ls P ∧
      P.shared.activeCount = 2 ∧ P.shared.statusOf "w1" = some .building ∧
      P.shared.statusOf "w2" = some .pending := by
  obtain ⟨ls,P,run,h⟩ := exists_run_of_play (serverSystem plainCodecs oneActive)
    anyStep_unrestricted
    (provisionMoves ++ [.start 5 (.cancel "w1")] ++ acts 1 5 9 "w1" ++
      [.start 6 (.submit (sampleRequest "c2"))] ++ acts 9 6 9 "w2" ++ acts 1 4 9 "w1")
    (freshPool plainCodecs oneActive)
    (fun _ P => P.shared.activeCount == 2 && (P.shared.statusOf "w1" == some .building &&
      P.shared.statusOf "w2" == some .pending)) (by decide)
  simp only [Bool.and_eq_true,beq_iff_eq] at h
  exact ⟨ls,P,run,h⟩

end Remerge.AdmissionCap
