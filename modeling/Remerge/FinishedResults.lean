import Remerge.ChannelUpkeep
import Remerge.ServerLifetimes

/-!
# A finished event finds its result

Once a container was started, a processor records the result before it
broadcasts that the workorder is finished. The three exits before that do it
the other way round, and an eviction pass between the two steps takes the
result away again. In all runs without either, whoever sees the event finds
the result.
-/

set_option autoImplicit false

namespace Remerge.FinishedResults
open StepProgram Interleaving SnapshotTypes SnapshotStore SnapshotRuntime SnapshotCleanup
open ServerState ServerOps ServerTasks ServerPhases ServerCore ServerLifetimes ServiceStages
open ChannelUpkeep

variable {env : Codecs} {config : ServerConfig}

/-- A processor ends a workorder only with its container on record, and no
eviction pass meets an ended workorder whose processor is still running. -/
def finishesWithContainer : ServerCondition := fun s kinds l => match l with
  | .act _ _ (.setStatus id st) _ => st.terminal → s.containerIds.lookup id ≠ none
  | .act _ _ .evict _ => ∀ i w st, kinds i = some (.process w) → s.statusOf w.id = some st →
      st.terminal = false
  | _ => True

/-- No processor fails early, and a recorded result is there. -/
def Reported (s : Server) : TaskKind × Stage → Prop
  | (.process _,.failing) => False
  | (.process w,.recorded) => s.results.lookup w.id ≠ none
  | _ => True

structure Recorded (s : Server) (g : Services) : Prop where
  upkeep : Upkeep s g
  reported : ∀ i k q, g i = some (k,q) → Reported s (k,q.2.stage)

section
variable {s s' : Server} {g g' : Services} {l : ServerLabel} {o : ServerOp} {r : ServerRes o}
  {w : ServerOracle}

def writesResults : ServerOp → Bool
  | .insertResult _ _ | .evict => true
  | _ => false

theorem results_of_sem (h : writesResults o = false)
    (hs : serverSem env config o w s = some (s',r)) : s'.results = s.results := by
  rw [effect_of_sem env config hs]
  cases o <;> first | rfl | cases h

theorem results_kept {id : WorkorderId} (hs : serverSem env config o w s = some (s',r))
    (h : s.results.lookup id ≠ none) :
    s'.results.lookup id ≠ none ∨ (o = .evict ∧ ∃ st, s.statusOf id = some st ∧ st.terminal) := by
  by_cases ht : writesResults o = false
  · rw [results_of_sem ht hs]
    exact .inl h
  · cases o with
    | insertResult id' result =>
      cases hs
      left
      change (s.results.insert id' result).lookup id ≠ none
      rw [AList.lookup_insert_ite]
      split
      · exact nofun
      · exact h
    | evict =>
      simp only [serverSem,Option.ite_none_right_eq_some] at hs
      obtain ⟨-,hs⟩ := hs
      split at hs
      · cases hs
        rw [results_evicted]
        split
        · next hid => exact .inr ⟨rfl,evictedIds_terminal hid⟩
        · exact .inl h
      · cases hs
        exact .inl h
    | _ => exact absurd rfl ht

theorem reported_frame {t : TaskKind × Stage} (h : Reported s t)
    (hs : serverSem env config o w s = some (s',r))
    (hc : o = .evict → ∀ w st, t.1 = .process w → s.statusOf w.id = some st →
      st.terminal = false) : Reported s' t := by
  obtain ⟨k,st⟩ := t
  cases k with
  | process v =>
    cases st with
    | recorded =>
      rcases results_kept hs h with e | ⟨he,st,hst,hterm⟩
      · exact e
      · rw [hc he v st rfl hst] at hterm
        cases hterm
    | failing => exact h
    | _ => trivial
  | _ => trivial

theorem reported_next {i : ℕ} {k : TaskKind} {q : Phase × Post} (hR : Recorded s g)
    (ht : g i = some (k,q)) (ha : Serves k q.2.stage o)
    (hs : serverSem env config o w s = some (s',r))
    (hc : finishesWithContainer s g.kinds (.act i k o r)) :
    Reported s' (k,stageNext config q.2.stage o r) := by
  have hr := hR.reported i k q ht
  have hfit := hR.upkeep.fit i k q
  generalize q.2.stage = st at ha hr hfit
  -- An operation that keeps the stage and is no eviction keeps what it promises.
  have kept : o ≠ .evict → Reported s' (k,st) := fun he =>
    reported_frame hr hs fun e => absurd e he
  cases ha with
  | plain hn _ =>
    rw [stageNext_plain st o r hn]
    refine kept ?_
    rintro rfl
    cases hn
  | fail hterm =>
    rename_i v st
    have hcontainer : (view s v.id).container :=
      Option.isSome_iff_ne_none.mpr (hc hterm)
    rcases hfit v.id ht rfl with hv | hv <;>
    · rw [hv] at hcontainer
      cases hcontainer
  | finish hterm =>
    rw [stageNext_terminal _ _ hterm]
    trivial
  | record =>
    cases hs
    change (s.results.insert _ _).lookup _ ≠ none
    simp
  | recordFailure | tellEarly => exact hr
  | tell => exact kept nofun
  | forget hq =>
    rcases hq with rfl | rfl
    · exact hr
    · exact kept nofun
  | close hq => rcases hq with rfl | rfl <;> trivial
  | _ => first | trivial | (cases r <;> trivial)

theorem recorded_step (hR : Recorded s g) (h : ServiceStep env config s g l s' g')
    (hc : finishesWithContainer s g.kinds l) : Recorded s' g' := by
  have reported := tasks_kept service_turns (fun s t => Reported s (t.1,t.2.2.stage)) h
    (fun i t ht => hR.reported i t.1 t.2 ht) (fun k hk => by cases k <;> trivial)
    fun i k q o r w ht allowed hs hl => by
      subst hl
      refine ⟨reported_next hR ht allowed.2.1 hs hc,fun v _ => trivial,fun a t _ hg => ?_⟩
      refine reported_frame (hR.reported a t.1 t.2 hg) hs ?_
      rintro rfl v st hv
      exact hc a v st (by rw [Ghost.kinds,hg]; exact congrArg some hv)
  exact ⟨upkeep_step hR.upkeep h,fun i k q ht => reported i (k,q) ht⟩

end

variable {P P1 P2 : ServerPool} {ls : List ServerLabel}

theorem recorded_start (start : Started env config P) :
    Recorded P.shared (startServices config) := by
  refine ⟨upkeep_start start,fun i k q ht => ?_⟩
  obtain ⟨he,-⟩ := startServices_task ht
  cases he
  cases k <;> trivial

/-- Whenever a finished event is broadcast, the result is there to be fetched. -/
theorem finished_finds_result {i : ℕ} {k : TaskKind} {id : WorkorderId}
    {built failed : List String} {r : Unit} (start : Started env config P)
    (run : Run (serverSystem env config) finishesWithContainer P ls P1)
    (step : Step (serverSystem env config) P1 (.act i k (.send id (.finished built failed)) r) P2) :
    P1.shared.results.lookup id ≠ none := by
  obtain ⟨g,tracks,hR⟩ := services_run Recorded (fun _ _ _ _ _ h hs hc => recorded_step h hs hc)
    start (recorded_start start) run
  obtain ⟨q,w,hg,allowed,-⟩ := tracks.acting step
  have hserves := allowed.2.1
  have hreported := hR.reported i k q hg
  generalize q.2.stage = st at hserves hreported
  cases hserves with
  | plain hn _ => cases hn
  | waitingSend hn | owesSend hn => cases hn
  | tellEarly => exact hreported.elim
  | tell => exact hreported

def announces : ServerLabel → Option WorkorderId
  | .act _ _ (.send id (.finished _ _)) _ => some id
  | _ => none

theorem act_of_announces {l : ServerLabel} {id : WorkorderId} (h : announces l = some id) :
    ∃ i k built failed r, l = .act i k (.send id (.finished built failed)) r := by
  unfold announces at h
  split at h
  · cases h
    exact ⟨_,_,_,_,_,rfl⟩
  · cases h

def finishesCheck (s : Server) (_ : ℕ → Option TaskKind) (l : ServerLabel) : Bool := match l with
  | .act _ _ (.setStatus id st) _ => !st.terminal || (s.containerIds.lookup id).isSome
  | .act _ _ .evict _ => false
  | _ => true

theorem finishesWithContainer_of_check (s : Server) (kinds : ℕ → Option TaskKind)
    (l : ServerLabel) (_ : ∀ i, 10 ≤ i → kinds i = none) (h : finishesCheck s kinds l) :
    finishesWithContainer s kinds l := by
  unfold finishesCheck at h
  unfold finishesWithContainer
  split
  · intro ht
    dsimp only at h
    rw [ht,Bool.not_true,Bool.false_or] at h
    exact Option.ne_none_iff_isSome.mpr h
  · cases h
  · trivial

/-- The build of a workorder ends and its result is recorded and announced. -/
theorem finished_finds_result_default :
    ∃ ls P1 i k built failed r P2,
      Run (serverSystem plainCodecs .default) finishesWithContainer
        (freshPool plainCodecs .default) ls P1 ∧
      Step (serverSystem plainCodecs .default) P1
        (.act i k (.send "w1" (.finished built failed)) r) P2 ∧
      P1.shared.results.lookup "w1" ≠ none := by
  obtain ⟨ls,P1,l,P2,run,step,-,h⟩ := exists_step_of_play
    (serverSystem plainCodecs .default) finishesWithContainer_of_check
    (claimedMoves ++ acts 27 4 9 "w1") (.act 4 9 {}) (freshPool plainCodecs .default)
    (by decide) (fun i hi => freshPool_none hi) (fun _ l => announces l == some "w1")
    (by decide)
  obtain ⟨i,k,built,failed,r,rfl⟩ := act_of_announces (beq_iff_eq.mp h)
  exact ⟨ls,P1,i,k,built,failed,r,P2,run,step,
    finished_finds_result (started_fresh plainCodecs .default) run step⟩

/-- The worker image cannot be built: the end is announced before the result
is recorded. -/
theorem finished_without_result :
    ∃ ls P1 i k built failed r P2,
      Run (serverSystem plainCodecs .default) unrestricted
        (freshPool plainCodecs .default) ls P1 ∧
      Step (serverSystem plainCodecs .default) P1
        (.act i k (.send "w1" (.finished built failed)) r) P2 ∧
      P1.shared.results.lookup "w1" = none := by
  obtain ⟨ls,P1,l,P2,run,step,-,h⟩ := exists_step_of_play
    (serverSystem plainCodecs .default)
    (fun s kinds l _ => anyStep_unrestricted s kinds l)
    (claimedMoves ++ acts 2 4 9 "w1" ++ [.act 4 9 { flag := true },
      .act 4 9 { error := some "no such image" }] ++ acts 4 4 9 "w1") (.act 4 9 {})
    (freshPool plainCodecs .default) (by decide) (fun i hi => freshPool_none hi)
    (fun P l => announces l == some "w1" && (P.shared.results.lookup "w1").isNone)
    (by decide)
  rw [Bool.and_eq_true,beq_iff_eq,Option.isNone_iff_eq_none] at h
  obtain ⟨i,k,built,failed,r,rfl⟩ := act_of_announces h.1
  exact ⟨ls,P1,i,k,built,failed,r,P2,run,step,h.2⟩

end Remerge.FinishedResults
