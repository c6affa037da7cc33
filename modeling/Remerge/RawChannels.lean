import Remerge.ChannelUpkeep
import Remerge.ServerLifetimes

/-!
# The raw output channel of a started worker

A processor looks its raw output channel up long after the submit made it, and
panics if it is gone. Only eviction can take it, and only when a cancel has
made the workorder terminal under the running processor. As long as no
eviction pass meets such a workorder the channel is always found.
-/

set_option autoImplicit false

namespace Remerge.RawChannels
open StepProgram Interleaving SnapshotTypes SnapshotStore SnapshotRuntime SnapshotCleanup
open ServerState ServerOps ServerTasks ServerPhases ServerCore ServerLifetimes ServiceStages
open ChannelUpkeep

variable {env : Codecs} {config : ServerConfig}

/-- No eviction pass while the workorder of a running processor is Cancelled. -/
def evictsNoCancelledWork : ServerCondition := fun s kinds l => match l with
  | .act _ _ .evict _ => ∀ i w, kinds i = some (.process w) → s.statusOf w.id ≠ some .cancelled
  | _ => True

def isInFlight : WorkorderStatus → Bool
  | .provisioning | .building | .cancelled => true
  | _ => false

/-- From the claim on the workorder is in flight unless it is gone; a processor
with its channels still has it. -/
def InFlight (s : Server) : TaskKind × Stage → Prop
  | (.queue,.took w) | (.queue,.waiting w) | (.process w,.fresh) =>
    ∀ st, s.statusOf w.id = some st → isInFlight st
  | (.process w,.watched) | (.process w,.started) =>
    ∃ st, s.statusOf w.id = some st ∧ isInFlight st
  | _ => True

structure Attached (s : Server) (g : Services) : Prop where
  upkeep : Upkeep s g
  inFlight : ∀ i k q, g i = some (k,q) → InFlight s (k,q.2.stage)

section
variable {s s' : Server} {g g' : Services} {l : ServerLabel} {x x' : Option WorkorderStatus}
  {o : ServerOp}

theorem inFlight_imposed (h : Imposed o x x') (hx : ∀ st, x = some st → isInFlight st) :
    ∀ st, x' = some st → isInFlight st := by
  cases h with
  | same => exact hx
  | cancelled _ _ =>
    intro st e
    cases e
    rfl
  | evicted _ _ => exact fun st e => nomatch e

theorem present_imposed (h : Imposed o x x') (hx : ∃ st, x = some st ∧ isInFlight st)
    (hc : o = .evict → x ≠ some .cancelled) : ∃ st, x' = some st ∧ isInFlight st := by
  cases h with
  | same => exact hx
  | cancelled _ _ => exact ⟨.cancelled,rfl,rfl⟩
  | evicted he ht =>
    rename_i st
    obtain ⟨st',e,hf⟩ := hx
    cases e
    have hn := hc he
    cases st with
    | cancelled => exact absurd rfl hn
    | completed | failed _ => cases hf
    | _ => cases ht

theorem inFlight_frame {t : TaskKind × Stage} (h : InFlight s t)
    (hi : ∀ id, subject t = some id → Imposed o (s.statusOf id) (s'.statusOf id))
    (hc : o = .evict → ∀ w, t.1 = .process w → s.statusOf w.id ≠ some .cancelled) :
    InFlight s' t := by
  obtain ⟨k,st⟩ := t
  cases k with
  | queue => cases st <;> first | trivial | exact inFlight_imposed (hi _ rfl) h
  | process w =>
    cases st with
    | fresh => exact inFlight_imposed (hi _ rfl) h
    | watched | started => exact present_imposed (hi _ rfl) h fun e => hc e w rfl
    | _ => trivial
  | _ => trivial

section
variable {i : ℕ} {k : TaskKind} {q : Phase × Post} {r : ServerRes o} {w : ServerOracle}

theorem status_of_write {id : WorkorderId} {st : WorkorderStatus} {r : Option WorkorderStatus}
    (hs : serverSem env config (.setStatus id st) w s = some (s',r)) :
    s'.statusOf id = (s.statusOf id).map fun _ => st := by
  cases of_exclusive hs
  exact (StatusLifecycle.statusOf_modify (core s) id id w.time st).trans (if_pos rfl)

theorem inFlight_next (hA : Attached s g) (ht : g i = some (k,q))
    (ha : ((service config).monitor k).allows q o)
    (hs : serverSem env config o w s = some (s',r)) :
    InFlight s' (k,stageNext config q.2.stage o r) := by
  have hf := hA.inFlight i k q ht
  have hfit := hA.upkeep.fit i k q
  have hi : ∀ id, subject (k,q.2.stage) = some id → writesStatus o = false →
      Imposed o (s.statusOf id) (s'.statusOf id) :=
    fun id hsub hw => hA.upkeep.imposed ht ha hs ht hsub fun _ => hw
  have hserves := ha.2.1
  generalize hst : q.2.stage = st at hf hi hserves hfit
  -- A stage that an operation keeps, or changes into one with the same demand.
  have kept : ∀ st', stageNext config st o r = st' → writesStatus o = false → o ≠ .evict →
      (∀ s, InFlight s (k,st) → InFlight s (k,st')) → InFlight s' (k,st') :=
    fun st' _ hw he hm => hm s' (inFlight_frame hf (fun id hsub => hi id hsub hw)
      fun e => absurd e he)
  cases hserves with
  | plain hn _ =>
    rw [stageNext_plain st o r hn]
    refine kept st (stageNext_plain st o r hn) ?_ ?_ fun _ h => h
    · cases o <;> first | rfl | cases hn
    · rintro rfl
      cases hn
  | claim =>
    cases r with
    | true =>
      intro st e
      rw [status_of_claim hs] at e
      cases e
      rfl
    | false => trivial
  | dequeue => exact kept _ rfl rfl nofun fun _ h => h
  | waitingLook | waitingSend _ | waitingPermit => exact kept _ rfl rfl nofun fun _ h => h
  | watch =>
    rename_i v
    cases r with
    | true =>
      have hp : (view s v.id).progress := congrArg Prod.snd (Option.some.inj hs)
      obtain rfl : s = s' := congrArg Prod.fst (Option.some.inj hs)
      rcases hfit v.id ht rfl with hv | hv
      · obtain ⟨st,e⟩ := status_of_listed (congrArg View.listed hv)
        exact ⟨st,e,hf st e⟩
      · rw [hv] at hp
        cases hp
    | false => trivial
  | build =>
    obtain ⟨st,e,-⟩ := hf
    exact ⟨.building,by rw [status_of_write hs,e]; rfl,rfl⟩
  | fail hterm | finish hterm =>
    rw [stageNext_terminal _ _ hterm]
    trivial
  | attach => exact kept _ rfl rfl nofun fun _ h => h
  | forget hq | close hq => rcases hq with rfl | rfl <;> trivial
  | _ => first | trivial | (cases r <;> trivial)

end

theorem attached_step (hA : Attached s g) (h : ServiceStep env config s g l s' g')
    (hc : evictsNoCancelledWork s g.kinds l) : Attached s' g' := by
  have inFlight := tasks_kept service_turns (fun s t => InFlight s (t.1,t.2.2.stage)) h
    (fun i t ht => hA.inFlight i t.1 t.2 ht)
    (fun k hk => by cases k <;> trivial)
    fun i k q o r w ht allowed hs hl => by
      refine ⟨inFlight_next hA ht allowed hs,fun v hv => ?_,fun a t hne hg => ?_⟩
      · -- The queue loop hands over what it holds.
        cases o with
        | spawnProcess u =>
          cases hv
          cases hs
          have hf := hA.inFlight i k q ht
          have hserves := allowed.2.1
          generalize q.2.stage = st at hf hserves
          cases hserves with
          | plain hn _ => cases hn
          | spawn => exact hf
        | _ => cases hv
      · refine inFlight_frame (hA.inFlight a t.1 t.2 hg)
          (fun id hsub => hA.upkeep.imposed ht allowed hs hg hsub fun e => absurd e hne) ?_
        rintro rfl v hv
        subst hl
        exact hc a v (by rw [Ghost.kinds,hg]; exact congrArg some hv)
  exact ⟨upkeep_step hA.upkeep h,fun i k q ht => inFlight i (k,q) ht⟩

end

variable {P P1 P2 : ServerPool} {ls : List ServerLabel}

theorem attached_start (start : Started env config P) :
    Attached P.shared (startServices config) := by
  refine ⟨upkeep_start start,fun i k q ht => ?_⟩
  obtain ⟨he,hk⟩ := startServices_task ht
  cases he
  cases k <;> trivial

/-- Whenever a processor looks its raw channel up, the channel is there. -/
theorem raw_channel_found {i : ℕ} {k : TaskKind} {id : WorkorderId} {present : Bool}
    (start : Started env config P)
    (run : Run (serverSystem env config) evictsNoCancelledWork P ls P1)
    (step : Step (serverSystem env config) P1 (.act i k (.hasRaw id) present) P2) :
    present := by
  obtain ⟨g,tracks,hA⟩ := services_run Attached (fun _ _ _ _ _ h hs hc => attached_step h hs hc)
    start (attached_start start) run
  obtain ⟨q,w,hg,allowed,hs⟩ := tracks.acting step
  have hserves := allowed.2.1
  have hfit := hA.upkeep.fit i k q
  have hflight := hA.inFlight i k q hg
  generalize q.2.stage = st at hserves hfit hflight
  cases hserves with
  | plain hn _ => cases hn
  | look =>
    rename_i v
    obtain ⟨-,hraw,-⟩ := hfit v.id hg rfl
    obtain ⟨st,e,-⟩ := hflight
    have hr : (view P1.shared v.id).raw = present := congrArg Prod.snd (Option.some.inj hs)
    rw [← hr,hraw]
    exact listed_of_status e

def noEviction (_ : Server) (_ : ℕ → Option TaskKind) (l : ServerLabel) : Bool := match l with
  | .act _ _ .evict _ => false
  | _ => true

theorem evictsNoCancelledWork_of_noEviction (s : Server) (kinds : ℕ → Option TaskKind)
    (l : ServerLabel) (_ : ∀ i, 10 ≤ i → kinds i = none) (h : noEviction s kinds l) :
    evictsNoCancelledWork s kinds l := by
  unfold noEviction at h
  unfold evictsNoCancelledWork
  split
  · cases h
  · trivial

def rawLookUp : ServerLabel → Option Bool
  | .act _ _ (.hasRaw _) present => some present
  | _ => none

theorem act_of_rawLookUp {l : ServerLabel} {present : Bool} (h : rawLookUp l = some present) :
    ∃ i k id, l = .act i k (.hasRaw id) present := by
  unfold rawLookUp at h
  split at h
  · cases h
    exact ⟨_,_,_,rfl⟩
  · cases h

/-- A processor that got its worker started finds the channel. -/
theorem raw_channel_found_default :
    ∃ ls P1 i k id present P2,
      Run (serverSystem plainCodecs .default) evictsNoCancelledWork
        (freshPool plainCodecs .default) ls P1 ∧
      Step (serverSystem plainCodecs .default) P1 (.act i k (.hasRaw id) present) P2 ∧
      present := by
  obtain ⟨ls,P1,l,P2,run,step,-,h⟩ := exists_step_of_play
    (serverSystem plainCodecs .default) evictsNoCancelledWork_of_noEviction
    (claimedMoves ++ acts 14 4 9 "w1") (.act 4 9 {}) (freshPool plainCodecs .default)
    (by decide) (fun i hi => freshPool_none hi) (fun _ l => (rawLookUp l).isSome)
    (by decide)
  obtain ⟨present,hl⟩ := Option.isSome_iff_exists.mp h
  obtain ⟨i,k,id,rfl⟩ := act_of_rawLookUp hl
  exact ⟨ls,P1,i,k,id,present,P2,run,step,
    raw_channel_found (started_fresh plainCodecs .default) run step⟩

def noRetention : ServerConfig := { ServerConfig.default with retentionHours := 0 }

/-- A cancel hits a workorder whose container is being started, an eviction
pass drops it, and the processor looks for a channel that is gone. -/
theorem raw_channel_evicted :
    ∃ ls P1 i k id P2,
      Run (serverSystem plainCodecs noRetention) unrestricted (freshPool plainCodecs noRetention)
        ls P1 ∧
      Step (serverSystem plainCodecs noRetention) P1 (.act i k (.hasRaw id) false) P2 := by
  obtain ⟨ls,P1,l,P2,run,step,-,h⟩ := exists_step_of_play
    (serverSystem plainCodecs noRetention) (fun s kinds l _ => anyStep_unrestricted s kinds l)
    (claimedMoves ++ acts 13 4 9 "w1" ++ [.start 5 (.cancel "w1"),.act 5 9 {},
      .act 1 9 { time := 1 }] ++ acts 1 4 9 "w1") (.act 4 9 {}) (freshPool plainCodecs noRetention)
    (by decide) (fun i hi => freshPool_none hi) (fun _ l => rawLookUp l == some false)
    (by decide)
  obtain ⟨i,k,id,rfl⟩ := act_of_rawLookUp (beq_iff_eq.mp h)
  exact ⟨ls,P1,i,k,id,P2,run,step⟩

end Remerge.RawChannels
