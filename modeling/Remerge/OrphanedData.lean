import Remerge.ProcessingExits
import Remerge.RawChannels

/-!
# Data without its workorder

Eviction takes a workorder out of all maps at once. A processor that outlives
the entry still inserts its result, so the maps only stay within the listed
workorders if no pass evicts what a processor has in hand.
-/

set_option autoImplicit false
set_option maxRecDepth 2000

namespace Remerge.OrphanedData
open StepProgram Interleaving SnapshotTypes SnapshotStore SnapshotRuntime SnapshotCleanup
open ServerState ServerOps ServerTasks ServerPhases ServerCore ServiceStages ChannelUpkeep
open ServerLifetimes ProcessorLedger ProcessingExits RawChannels

variable {env : Codecs} {config : ServerConfig}

def Kept (s : Server) (id : WorkorderId) : Prop :=
  s.results.lookup id ≠ none ∨ s.progressTxs.lookup id ≠ none ∨ s.rawOutputTxs.lookup id ≠ none ∨
    s.stdinTxs.lookup id ≠ none ∨ s.containerIds.lookup id ≠ none ∨
    s.stagedReferences.lookup id ≠ none

def NoOrphans (s : Server) : Prop := ∀ id, Kept s id → s.workorders.lookup id ≠ none

/-- No eviction pass while the workorder of a running processor has ended. -/
def evictsNoWorkInHand : ServerCondition := fun s kinds l => match l with
  | .act _ _ .evict _ => ∀ i v, kinds i = some (.process v) → ∀ st,
      s.statusOf v.id = some st → st.terminal = false
  | _ => True

def Listed (s : Server) (id : WorkorderId) : Prop := (view s id).listed

section
variable {s s' : Server} {b b' : Books} {l : ServerLabel} {i : ℕ} {k : TaskKind}
  {q : (Phase × Post) × Ledger} {o : ServerOp} {r : ServerRes o} {w : ServerOracle}
  {id : WorkorderId}

theorem listed_kept (hs : serverSem env config o w s = some (s',r)) (he : o ≠ .evict)
    (h : Listed s id) : Listed s' id := by
  have grows : ∀ v : View, v.listed → (touch v o).listed := by
    intro v hv
    cases o <;> first | exact hv | rfl
  rcases view_of_sem id hs with e | ⟨rfl,-⟩
  · unfold Listed
    rw [e]
    split
    · exact grows _ h
    · exact h
  · exact absurd rfl he

theorem listed_in_hand (hs : serverSem env config o w s = some (s',r))
    (hc : o = .evict → ∀ st, s.statusOf id = some st → st.terminal = false)
    (h : Listed s id) : Listed s' id := by
  by_cases he : o = .evict
  · subst he
    have untouched : touched ServerOp.evict ≠ some id := nofun
    rcases view_frame hs untouched with e | ⟨-,-,st,hst,ht⟩
    · unfold Listed
      rw [e]
      exact h
    · cases (hc rfl st hst).symm.trans ht
  · exact listed_kept hs he h

/-- A processor that has its progress channel, has written a status or has
references staged finds its workorder in the map. -/
structure InHand (s : Server) (t : TaskKind × ((Phase × Post) × Ledger)) : Prop where
  sound : t.2.2.panicked = false
  stage : ∀ v, t.1 = .process v → t.2.1.2.stage = .fresh ∨ t.2.1.2.stage = .over ∨ Listed s v.id
  ledger : ∀ v, t.1 = .process v → t.2.2.status ≠ none ∨ t.2.2.staged → Listed s v.id

theorem inHand_task (s : Server) (k : TaskKind) : InHand s ((processing config).task k) :=
  ⟨rfl,fun _ _ => .inl rfl,fun _ _ h => h.elim (absurd rfl) nofun⟩

variable {v : Workorder} {st : Stage}

theorem stage_next (hf : ∀ id, subject (.process v,st) = some id → Fit (view s id) (.process v,st))
    (ha : Serves (.process v) st o) (hs : serverSem env config o w s = some (s',r))
    (h : st = .fresh ∨ st = .over ∨ Listed s v.id) :
    stageNext config st o r = .fresh ∨ stageNext config st o r = .over ∨ Listed s' v.id := by
  by_cases hl : Listed s v.id
  · refine .inr (.inr (listed_kept hs ?_ hl))
    rintro rfl
    cases ha with
    | plain hn _ => cases hn
  · cases ha with
    | plain hn _ =>
      rw [stageNext_plain st o r hn]
      exact h.imp_right fun h => h.imp_right fun h => absurd h hl
    | watch =>
      cases r with
      | false => exact .inr (.inl rfl)
      | true =>
        have hp : (view s v.id).progress := congrArg Prod.snd (Option.some.inj hs)
        rcases hf v.id rfl with e | e
        · exact absurd (congrArg View.listed e) hl
        · rw [e] at hp
          cases hp
    | forget hq | close hq =>
      rcases hq with rfl | rfl <;> exact absurd h (by simp [hl])
    | _ => exact absurd h (by simp [hl])

theorem sound_next (hU : Upkeep s b.first) (ht : b i = some (k,q))
    (ha : Serves k q.1.2.stage o) (hs : serverSem env config o w s = some (s',r))
    (h : InHand s (k,q)) : (ledgerNext q.2 o r).panicked = false := by
  have hfit := hU.fit i k q.1
  cases o with
  | hasRaw id =>
    cases r with
    | true => exact h.sound
    | false =>
      have hstage := h.stage
      change ∀ v, k = .process v → q.1.2.stage = _ ∨ q.1.2.stage = _ ∨ _ at hstage
      generalize q.1.2.stage = st at ha hfit hstage
      cases ha with
      | plain hn _ => cases hn
      | look =>
        rename_i v
        have hl : Listed s v.id := by simpa using hstage v rfl
        have hr : (view s v.id).raw = false := congrArg Prod.snd (Option.some.inj hs)
        have hf := hfit v.id (first_some ht) rfl
        cases hr.symm.trans (hf.2.1.trans hl)
  | _ => exact h.sound

theorem ledger_next (ha : ((processing config).monitor (.process v)).allows q o)
    (hs : serverSem env config o w s = some (s',r)) (h : InHand s (.process v,q))
    (hn : (ledgerNext q.2 o r).status ≠ none ∨ (ledgerNext q.2 o r).staged) :
    Listed s' v.id := by
  have hserves := ha.1.2.1
  have hstage := h.stage v rfl
  change q.1.2.stage = _ ∨ q.1.2.stage = _ ∨ _ at hstage
  refine listed_kept hs ?_ ?_
  · rintro rfl
    generalize q.1.2.stage = st at hserves
    cases hserves with
    | plain hn _ => cases hn
  · cases o with
    | setStatus id st =>
      generalize q.1.2.stage = st at hserves hstage
      cases hserves with
      | plain hn _ => cases hn
      | _ => simpa using hstage
    | trackReferences id references =>
      cases ha.2 with
      | quiet ho => cases ho
      | track hst => exact h.ledger v rfl (.inl hst)
    | clearReferences id => exact h.ledger v rfl (hn.imp_right nofun)
    | _ => exact h.ledger v rfl hn

theorem inHand_step (hU : Upkeep s b.first) (hb : ∀ i t, b i = some t → InHand s t)
    (h : ProcessingStep env config s b l s' b')
    (hc : evictsNoWorkInHand s b.kinds l) : ∀ i t, b' i = some t → InHand s' t := by
  refine tasks_kept processing_turns InHand h hb (fun k _ => inHand_task s' k) ?_
  rintro i k q o r w ht allowed hs rfl
  have own := hb i _ ht
  refine ⟨⟨sound_next hU ht allowed.1.2.1 hs own,?_,?_⟩,fun v _ => inHand_task s' _,?_⟩
  · rintro v rfl
    exact stage_next (fun id => hU.fit i _ q.1 id (first_some ht)) allowed.1.2.1 hs (own.stage v rfl)
  · rintro v rfl
    exact ledger_next allowed hs own
  · rintro a ⟨k',q'⟩ hne hg
    have other := hb a _ hg
    have kept : ∀ v, k' = .process v → Listed s v.id → Listed s' v.id := by
      rintro v rfl
      refine listed_in_hand hs ?_
      rintro rfl
      exact hc a v (by simp [Ghost.kinds,hg])
    exact ⟨other.sound,fun v e => (other.stage v e).imp_right fun h => h.imp_right (kept v e),
      fun v e hn => kept v e (other.ledger v e hn)⟩

def Filing (b : Books) (id : WorkorderId) : Prop :=
  ∃ i req q, b i = some (.submit req,q) ∧ (q.1.2.stage = .raw id ∨ q.1.2.stage = .made id)

theorem filing_kept (h : ProcessingStep env config s b l s' b')
    (untouched : ∀ i k o r, l = .act i k o r → touched o ≠ some id) (hf : Filing b id) :
    Filing b' id := by
  obtain ⟨a,req,q,ha,hst⟩ := hf
  by_cases acts : ∃ k o r, l = .act a k o r
  · obtain ⟨k,o,r,rfl⟩ := acts
    obtain ⟨q',w,ht,allowed,-,hi,-⟩ := h.acted
    cases ht.symm.trans ha
    have hn := untouched a _ o r rfl
    refine ⟨a,req,_,hi,?_⟩
    have hserves := allowed.1.2.1
    change stageNext config q.1.2.stage o r = _ ∨ stageNext config q.1.2.stage o r = _
    generalize q.1.2.stage = st at hserves hst
    cases hserves with
    | plain hp _ => rwa [stageNext_plain st o r hp]
    | makeProgress | list => exact absurd (by simpa [touched] using hst) hn
    | _ => simp at hst
  · refine ⟨a,req,q,h.kept ha (fun k o r e => acts ⟨k,o,r,e⟩) ?_,hst⟩
    rintro k k' rfl
    cases h with
    | next ht ends =>
      cases ht.symm.trans ha
      have hfinal : q.1.2.stage = .fresh ∨ q.1.2.stage = .over := ends.1.2.1.2
      rcases hfinal with e | e <;> simp [e] at hst

theorem listed_of_touched (ha : Serves (.process v) st o)
    (h : st = .fresh ∨ st = .over ∨ Listed s v.id) (ho : isService o)
    (hl : ∀ x, o ≠ .hasProgress x) : Listed s v.id := by
  cases ha with
  | plain hn _ => cases ho.symm.trans hn
  | watch => exact absurd rfl (hl _)
  | forget hq | close hq => rcases hq with rfl | rfl <;> simpa using h
  | _ => simpa using h

def View.occupied (v : View) : Bool := v.progress || v.raw || v.stdin || v.container

/-- Nothing in the tables and no result without a workorder, listed or on its way. -/
structure Owned (s : Server) (b : Books) (id : WorkorderId) : Prop where
  channels : View.occupied (view s id) → Listed s id ∨ Filing b id
  results : s.results.lookup id ≠ none → Listed s id

theorem channels_act (hb : ∀ i t, b i = some t → InHand s t) (hO : Owned s b id)
    (h : ProcessingStep env config s b (.act i k o r) s' b')
    (hv : View.occupied (view s' id)) : Listed s' id ∨ Filing b' id := by
  obtain ⟨q,w,ht,allowed,hs,hi,-⟩ := h.acted
  rcases view_of_sem id hs with e | ⟨-,e,-⟩
  · split at e
    · next hto =>
      have hsub := touched_subject allowed.1.2.1 hto
      have hstage := (hb i _ ht).stage
      have hserves := allowed.1.2.1
      cases k with
      | process v =>
        obtain rfl := subject_process hsub
        refine .inl (listed_kept hs (fun he => by rw [he] at hto; cases hto)
          (listed_of_touched hserves (hstage v rfl) (touched_service hto) ?_))
        rintro x rfl
        cases hto
      | submit req =>
        have hnext : ∃ q', b' i = some (.submit req,q') ∧
            q'.1.2.stage = stageNext config q.1.2.stage o r := ⟨_,hi,rfl⟩
        obtain ⟨q',hi',hst⟩ := hnext
        generalize q.1.2.stage = st at hserves hst
        cases hserves with
        | plain hn _ => cases (touched_service hto).symm.trans hn
        | makeRaw =>
          exact .inr ⟨i,req,q',hi',.inl (hst.trans (congrArg Stage.raw (Option.some.inj hto)))⟩
        | makeProgress =>
          exact .inr ⟨i,req,q',hi',.inr (hst.trans (congrArg Stage.made (Option.some.inj hto)))⟩
        | list =>
          left
          unfold Listed
          rw [e]
          rfl
        | _ => cases hto
      | _ =>
        generalize q.1.2.stage = st at hserves
        cases hserves with
        | plain hn _ => cases (touched_service hto).symm.trans hn
        | _ => cases hto
    · next hto =>
      rw [e] at hv
      refine (hO.channels hv).imp (fun hl => ?_) (filing_kept h ?_)
      · unfold Listed
        rwa [e]
      · rintro i' k' o' r' el
        cases el
        exact hto
  · rw [e] at hv
    cases hv

theorem results_act (hb : ∀ i t, b i = some t → InHand s t) (hO : Owned s b id)
    (h : ProcessingStep env config s b (.act i k o r) s' b')
    (hv : s'.results.lookup id ≠ none) : Listed s' id := by
  obtain ⟨q,w,ht,allowed,hs,-,-⟩ := h.acted
  change serverSem env config o w s = some (s',r) at hs
  by_cases he : o = .evict
  · subst he
    rw [effect_of_sem env config hs] at hv ⊢
    unfold Listed
    simp only [effect] at hv ⊢
    split at hv
    · rw [results_evicted] at hv
      rw [view_evicted]
      split at hv
      · exact absurd rfl hv
      · next hid =>
        rw [if_neg hid]
        exact hO.results hv
    · exact hO.results hv
  · refine listed_kept hs he ?_
    rw [effect_of_sem env config hs] at hv
    cases o with
    | evict => exact absurd rfl he
    | insertResult id' result =>
      have hstage := (hb i _ ht).stage
      change ∀ v, k = .process v → q.1.2.stage = _ ∨ q.1.2.stage = _ ∨ _ at hstage
      have hserves := allowed.1.2.1
      by_cases e : id = id'
      · subst e
        generalize q.1.2.stage = st at hserves hstage
        cases hserves with
        | plain hn _ => cases hn
        | recordFailure | record => simpa using hstage _ rfl
      · refine hO.results ?_
        change (s.results.insert id' result).lookup id ≠ none at hv
        rwa [AList.lookup_insert_ne e] at hv
    | _ => exact hO.results hv

end

variable {P P1 : ServerPool} {ls : List ServerLabel}

structure Orderly (s : Server) (b : Books) : Prop where
  upkeep : Upkeep s b.first
  inHand : ∀ i t, b i = some t → InHand s t
  staged : Staged s b
  owned : ∀ id, Owned s b id

theorem orderly_step {s s' : Server} {b b' : Books} {l : ServerLabel} (hO : Orderly s b)
    (h : ProcessingStep env config s b l s' b')
    (hc : evictsNoWorkInHand s b.kinds l) : Orderly s' b' := by
  refine ⟨upkeep_step hO.upkeep h.first,inHand_step hO.upkeep hO.inHand h hc,
    staged_step hO.staged (fun i t ht => (hO.inHand i t ht).sound) h,fun id => ?_⟩
  by_cases acts : ∃ i k o r, l = .act i k o r
  · obtain ⟨i,k,o,r,rfl⟩ := acts
    exact ⟨channels_act hO.inHand (hO.owned id) h,results_act hO.inHand (hO.owned id) h⟩
  · have hs : s' = s := by
      cases h with
      | act => exact absurd ⟨_,_,_,_,rfl⟩ acts
      | _ => rfl
    rw [hs]
    refine ⟨fun hv => ((hO.owned id).channels hv).imp_right (filing_kept h ?_),(hO.owned id).results⟩
    exact fun i k o r e => absurd ⟨i,k,o,r,e⟩ acts

theorem orderly_start (start : Started env config P)
    (loaded : ∀ id, P.shared.results.lookup id ≠ none → P.shared.workorders.lookup id ≠ none) :
    Orderly P.shared (startBooks config) := by
  have hK := kept_start start
  refine ⟨hK.upkeep,fun i t ht => ?_,hK.staged,fun id => ⟨fun hv => .inl ?_,fun h => ?_⟩⟩
  · obtain ⟨k,rfl,-⟩ := startBooks_some ht
    exact inHand_task _ k
  · obtain ⟨now,store,disk,issued,-⟩ := start
    change View.occupied (view (boot config now store disk issued) id) = true at hv
    change (view (boot config now store disk issued) id).listed
    rw [view_boot] at hv ⊢
    cases hl : (loadWorkorders now disk).lookup id with
    | none => simp [hl,View.occupied] at hv
    | some v => rfl
  · exact Option.isSome_iff_ne_none.mpr (loaded id h)

def isRequest : TaskKind → Bool
  | .submit _ | .cancel _ | .process _ => true
  | _ => false

def AtRest (P : ServerPool) : Prop := ∀ i k, P.kinds i = some k → isRequest k = false

/-- With nothing under way every map stays within the listed workorders. -/
theorem no_orphans_at_rest (start : Started env config P)
    (loaded : ∀ id, P.shared.results.lookup id ≠ none → P.shared.workorders.lookup id ≠ none)
    (run : Run (serverSystem env config) evictsNoWorkInHand P ls P1) (rest : AtRest P1) :
    NoOrphans P1.shared := by
  have tracks : Tracks (processing config) P (startBooks config) := by
    cases start
    exact tracks_background (processing_obeyed env config) _ fun _ => rfl
  obtain ⟨b,tracks,hO⟩ := (run_invariant (processing_obeyed env config) Orderly (fun _ => True)
    (fun _ _ _ _ _ hO hs hc => ⟨orderly_step hO hs hc,trivial⟩) run
    ⟨_,tracks,orderly_start start loaded⟩).1
  have idle : ∀ i k q, b i = some (k,q) → isRequest k = false := by
    intro i k q hb
    refine rest i k ?_
    rw [tracks.kinds]
    simp [Ghost.kinds,hb]
  have filed : ∀ id, ¬Filing b id := by
    rintro id ⟨i,req,q,hb,-⟩
    cases idle i _ q hb
  have listed : ∀ id, Listed P1.shared id → P1.shared.workorders.lookup id ≠ none :=
    fun id h => Option.isSome_iff_ne_none.mp h
  intro id hk
  have occupied : View.occupied (view P1.shared id) → P1.shared.workorders.lookup id ≠ none :=
    fun h => listed id (((hO.owned id).channels h).resolve_right (filed id))
  simp only [View.occupied,view,Bool.or_eq_true,Option.isSome_iff_ne_none] at occupied
  rcases hk with h | h | h | h | h | h
  · exact listed id ((hO.owned id).results h)
  · exact occupied (by simp [h])
  · exact occupied (by simp [h])
  · exact occupied (by simp [h])
  · exact occupied (by simp [h])
  · obtain ⟨i,v,q,hb,-⟩ := hO.staged id h
    cases idle i _ q hb

theorem evictsNoWorkInHand_of_noEviction (s : Server) (kinds : ℕ → Option TaskKind)
    (l : ServerLabel) (_ : ∀ i, 10 ≤ i → kinds i = none) (h : noEviction s kinds l) :
    evictsNoWorkInHand s kinds l := by
  unfold noEviction at h
  unfold evictsNoWorkInHand
  split
  · cases h
  · trivial

def restsBelow (P : ServerPool) : Bool :=
  (List.range 10).all fun i => (P.kinds i).all fun k => !isRequest k

theorem atRest_of_below (h : restsBelow P) (hn : ∀ i, 10 ≤ i → P.tasks i = none) : AtRest P := by
  intro i k hk
  by_cases hi : i < 10
  · have hb := List.all_eq_true.mp h i (List.mem_range.mpr hi)
    rw [hk] at hb
    simpa using hb
  · simp [Pool.kinds,hn i (Nat.le_of_not_lt hi)] at hk

/-- A build that goes through leaves its result with its workorder. -/
theorem finished_build_no_orphans :
    ∃ ls P1, Run (serverSystem plainCodecs .default) evictsNoWorkInHand
        (freshPool plainCodecs .default) ls P1 ∧
      P1.shared.results.lookup "w1" ≠ none ∧ NoOrphans P1.shared := by
  obtain ⟨ls,P1,run,hn,h⟩ := exists_run_below
    (serverSystem plainCodecs .default) evictsNoWorkInHand_of_noEviction
    (claimedMoves ++ acts 39 4 9 "w1" ++ [.act 4 8 {},.next 4])
    (freshPool plainCodecs .default) (by decide) (fun i hi => freshPool_none hi)
    (fun P => (P.shared.results.lookup "w1").isSome && restsBelow P) (by decide)
  obtain ⟨hr,hrest⟩ := Bool.and_eq_true_iff.mp h
  exact ⟨ls,P1,run,Option.isSome_iff_ne_none.mp hr,
    no_orphans_at_rest (started_fresh plainCodecs .default) (fun id h => absurd rfl h)
      run (atRest_of_below hrest hn)⟩

/-- A workorder is cancelled and evicted while its worker runs; the processor
files the result of a workorder that is gone. -/
theorem late_result_orphaned :
    ∃ ls P1, Run (serverSystem plainCodecs noRetention) unrestricted
        (freshPool plainCodecs noRetention) ls P1 ∧ AtRest P1 ∧
      P1.shared.results.lookup "w1" ≠ none ∧ P1.shared.workorders.lookup "w1" = none := by
  obtain ⟨ls,P1,run,hn,h⟩ := exists_run_below (serverSystem plainCodecs noRetention)
    (fun s kinds l _ => anyStep_unrestricted s kinds l)
    (claimedMoves ++ acts 16 4 9 "w1" ++ [.start 5 (.cancel "w1")] ++ acts 8 5 9 "w1" ++
      [.next 5,.act 1 9 { time := 1 }] ++ acts 20 4 9 "w1" ++ [.act 4 8 {},.next 4])
    (freshPool plainCodecs noRetention) (by decide) (fun i hi => freshPool_none hi)
    (fun P => restsBelow P && (P.shared.results.lookup "w1").isSome &&
      (P.shared.workorders.lookup "w1").isNone) (by decide)
  simp only [Bool.and_eq_true,Option.isNone_iff_eq_none,Option.isSome_iff_ne_none] at h
  exact ⟨ls,P1,run,atRest_of_below h.1.1 hn,h.1.2,h.2⟩

end Remerge.OrphanedData
