import Remerge.GraceWindow
import Remerge.ServerCore
import Remerge.SortedPrefix

/-!
# Retention windows over the whole range of settings

Eviction and cleanup both go through their entries from the oldest on, so a
later cutoff removes a prefix of what an earlier one removes, whatever the cap
and the floor are. The windows themselves are cast to signed hours: large ones
panic or wrap into the future, and validation can lower a window that a new
setting raises.
-/

set_option autoImplicit false

namespace Remerge.RetentionWindows
open StepProgram SnapshotTypes SnapshotStore SnapshotRuntime SnapshotCleanup SnapshotUse
open GraceWindow SortedPrefix ServerState ServerOps ServerCore

section
variable {env : Codecs}

def tallyOne (summary : SnapshotCleanupSummary) (e : CleanupEntry) : SnapshotCleanupSummary :=
  let reclaimed := saturatingAdd summary.reclaimedBytes e.retainedBytes
  match e.kind with
  | .blob => { summary with deletedBlobs := summary.deletedBlobs+1, reclaimedBytes := reclaimed }
  | .tree => { summary with deletedTrees := summary.deletedTrees+1, reclaimedBytes := reclaimed }

/-- What a served deletion loop does to the store, and the size and the summary it
ends with unless a digest stops it. -/
def sweep (floor : ℕ) : List CleanupEntry → ℕ → SnapshotCleanupSummary → StoredEntries →
    StoredEntries × Option (ℕ × SnapshotCleanupSummary)
  | [], total, summary, s => (s,some (total,summary))
  | e::rest, total, summary, s =>
    if total ≤ floor then (s,some (total,summary))
    else if validDigest e.digest = false then (s,none)
    else sweep floor rest (total-e.retainedBytes) (tallyOne summary e) (s.erase (e.kind,e.digest))

variable {floor : ℕ} {key : Key}

theorem sweep_of_le {total : ℕ} (h : total ≤ floor) (entries : List CleanupEntry)
    (summary : SnapshotCleanupSummary) (s : StoredEntries) :
    sweep floor entries total summary s = (s,some (total,summary)) := by
  cases entries with
  | nil => rfl
  | cons e rest => exact if_pos h

theorem sweep_append (floor : ℕ) (xs ys : List CleanupEntry) (total : ℕ)
    (summary : SnapshotCleanupSummary) (s : StoredEntries) :
    sweep floor (xs++ys) total summary s = match (sweep floor xs total summary s).2 with
      | none => sweep floor xs total summary s
      | some next => sweep floor ys next.1 next.2 (sweep floor xs total summary s).1 := by
  induction xs generalizing total summary s with
  | nil => rfl
  | cons e xs ih =>
    simp only [List.cons_append,sweep]
    split
    · next h => exact (sweep_of_le h ys summary s).symm
    · split
      · rfl
      · exact ih _ _ _

theorem present_of_sweep (entries : List CleanupEntry) (total : ℕ)
    (summary : SnapshotCleanupSummary) (s : StoredEntries)
    (h : Present (sweep floor entries total summary s).1 key) : Present s key := by
  induction entries generalizing total summary s with
  | nil => exact h
  | cons e rest ih =>
    simp only [sweep] at h
    split at h
    · exact h
    · split at h
      · exact h
      · have hrest := ih _ _ _ h
        unfold Present at hrest ⊢
        rw [AList.lookup_erase_ite] at hrest
        split at hrest
        · cases hrest
        · exact hrest

theorem present_of_sweep_append (xs ys : List CleanupEntry) (total : ℕ)
    (summary : SnapshotCleanupSummary) (s : StoredEntries)
    (h : Present (sweep floor (xs++ys) total summary s).1 key) :
    Present (sweep floor xs total summary s).1 key := by
  rw [sweep_append] at h
  cases hx : (sweep floor xs total summary s).2 with
  | none =>
    rw [hx] at h
    exact h
  | some next =>
    rw [hx] at h
    exact present_of_sweep ys _ _ _ h

theorem after_deleteCleanupEntry (e : CleanupEntry) (summary : SnapshotCleanupSummary)
    (s : StoredEntries) :
    After (servedStore env) (outcome (deleteCleanupEntry e summary)) (fun s' r =>
      if validDigest e.digest = false then s' = s ∧ ∃ f, r = .error f
      else s' = s.erase (e.kind,e.digest) ∧ r = .ok (tallyOne summary e)) s := by
  unfold deleteCleanupEntry
  intro w s' r hs
  have heffect : storeEffect env w s (.delete e.kind e.digest) = (s',r) := Option.some.inj hs
  simp only [storeEffect] at heffect
  split at heffect
  · next hbad =>
    cases heffect
    simp only [hbad,if_pos]
    exact ⟨rfl,_,rfl⟩
  · next hgood =>
    cases heffect
    unfold tallyOne
    cases hk : e.kind <;> simp only [if_neg hgood] <;> exact ⟨rfl,rfl⟩

theorem after_deleteWhileAbove (floor : ℕ) (entries : List CleanupEntry) (total : ℕ)
    (summary : SnapshotCleanupSummary) (s : StoredEntries) :
    After (servedStore env) (outcome (deleteWhileAbove floor entries total summary))
      (fun s' r => (s',r.toOption) = sweep floor entries total summary s) s := by
  induction entries generalizing total summary s with
  | nil => rfl
  | cons e rest ih =>
    unfold deleteWhileAbove
    split
    · next h =>
      rw [sweep_of_le h]
      rfl
    · next h =>
      rw [outcome_bind]
      refine after_seq (after_deleteCleanupEntry e summary s) fun s1 r1 h1 => ?_
      simp only [sweep,if_neg h]
      split at h1
      · next hbad =>
        obtain ⟨rfl,f,rfl⟩ := h1
        rw [if_pos hbad]
        rfl
      · next hgood =>
        obtain ⟨rfl,rfl⟩ := h1
        rw [if_neg hgood]
        exact ih _ _ _

end

section
variable (active : List SnapshotReferenceSet)

theorem threshold_aged (cutoff : Time) : Threshold byLastReferenced (aged cutoff) := by
  intro a b ha hb
  simp only [aged,decide_eq_true_eq,decide_eq_false_iff_not,not_le] at ha hb
  exact ⟨le_of_lt (lt_of_le_of_lt ha hb),not_le.mpr (lt_of_le_of_lt ha hb)⟩

def passOrder (cutoff : Time) (s : StoredEntries) : List CleanupEntry :=
  ((storeCandidates active s).filter (aged cutoff)).insertionSort byLastReferenced

def passTotal (s : StoredEntries) : ℕ :=
  retainedTotal (retainedTotal 0 (listing s .blob)) (listing s .tree)

theorem passOrder_prefix {cutoff cutoff' : Time} (h : cutoff' ≤ cutoff) (s : StoredEntries) :
    ∃ rest, passOrder active cutoff s = passOrder active cutoff' s++rest := by
  have hfirst : ((storeCandidates active s).filter (aged cutoff)).filter (aged cutoff') =
      (storeCandidates active s).filter (aged cutoff') := by
    rw [List.filter_filter]
    apply List.filter_congr
    intro e _
    by_cases he : e.lastReferencedAt ≤ cutoff'
    · simp [aged,he,he.trans h]
    · simp [aged,he]
  rw [passOrder,insertionSort_split (threshold_aged cutoff'),hfirst]
  exact ⟨_,rfl⟩

theorem tiers_append (graceCutoff hardDeleteCutoff : Time) (s : StoredEntries) :
    (planFor active graceCutoff hardDeleteCutoff s).hardDelete.insertionSort byLastReferenced++
      (planFor active graceCutoff hardDeleteCutoff s).floorEligible.insertionSort
        byLastReferenced = passOrder active (max graceCutoff hardDeleteCutoff) s := by
  have hsplit := insertionSort_split (threshold_aged hardDeleteCutoff)
    ((storeCandidates active s).filter (aged (max graceCutoff hardDeleteCutoff)))
  rw [passOrder,hsplit,List.filter_filter,List.filter_filter]
  congr 2
  · apply List.filter_congr
    intro e _
    by_cases he : e.lastReferencedAt ≤ hardDeleteCutoff <;> simp [aged,he]
  · apply List.filter_congr
    intro e _
    by_cases he : e.lastReferencedAt ≤ hardDeleteCutoff <;> simp [aged,eligible,he]

variable {env : Codecs} {config : ServerConfig} {now graceCutoff hardDeleteCutoff : Time}

def emptySummary : SnapshotCleanupSummary := ⟨0,0,0⟩

def swept (config : ServerConfig) (cutoff : Time) (s : StoredEntries) :
    StoredEntries × Option (ℕ × SnapshotCleanupSummary) :=
  sweep config.snapshotMinRetainedBytes (passOrder active cutoff s) (passTotal s) emptySummary s

theorem after_deleteCollected (s : StoredEntries) :
    After (servedStore env)
      (outcome (deleteCollected config (planFor active graceCutoff hardDeleteCutoff s)))
      (fun s' r => s' = (swept active config (max graceCutoff hardDeleteCutoff) s).1 ∧ r.toOption =
        (swept active config (max graceCutoff hardDeleteCutoff) s).2.map Prod.snd) s := by
  rw [swept,← tiers_append]
  unfold deleteCollected
  dsimp only
  split
  · next h =>
    change passTotal s ≤ _ at h
    rw [sweep_of_le h]
    exact ⟨rfl,rfl⟩
  · rw [outcome_bind]
    refine after_seq (after_deleteWhileAbove _ _ _ _ s) fun s1 r1 h1 => ?_
    rw [sweep_append]
    change (s1,r1.toOption) = sweep _ _ (passTotal s) emptySummary s at h1
    rw [← h1]
    cases r1 with
    | error f => exact ⟨rfl,rfl⟩
    | ok first =>
      change After _ (outcome (deleteWhileAbove _ _ _ _ >>= _)) _ _
      rw [outcome_bind]
      refine after_seq (after_deleteWhileAbove _ _ _ _ s1) fun s2 r2 h2 => ?_
      dsimp only [Except.toOption]
      rw [← h2]
      cases r2 <;> exact ⟨rfl,rfl⟩

theorem after_collectCleanup_served (cuts : Cutoffs config now graceCutoff hardDeleteCutoff)
    (s : StoredEntries) :
    After (servedStore env) (outcome (collectCleanup config active now)) (fun s' r =>
      s' = s ∧ r = .ok (some (planFor active graceCutoff hardDeleteCutoff s))) s := by
  unfold collectCleanup
  rw [cuts.grace,cuts.hard]
  intro w1 s1 r1 h1
  cases h1
  intro w2 s2 r2 h2
  cases h2
  refine ⟨rfl,?_⟩
  change Except.ok (some ((listing s .tree).foldl _ ((listing s .blob).foldl _ _))) = _
  rw [foldl_collectRecord,foldl_collectRecord]
  simp [planFor,storeCandidates]

theorem after_cleanup (cuts : Cutoffs config now graceCutoff hardDeleteCutoff)
    (s : StoredEntries) :
    After (servedStore env) (outcome (cleanupSnapshotStorageAt config active now))
      (fun s' r => s' = (swept active config (max graceCutoff hardDeleteCutoff) s).1 ∧
        r.toOption = (swept active config (max graceCutoff hardDeleteCutoff) s).2.map
          fun total => some total.2) s := by
  unfold cleanupSnapshotStorageAt
  rw [outcome_bind]
  refine after_seq (after_collectCleanup_served active cuts s) fun s1 r1 h1 => ?_
  obtain ⟨rfl,rfl⟩ := h1
  change After _ (outcome (deleteCollected config _ >>= _)) _ _
  rw [outcome_bind]
  refine after_seq (after_deleteCollected active s1) fun s2 r2 h2 => ?_
  have hmap : (swept active config (max graceCutoff hardDeleteCutoff) s1).2.map
      (fun total => some total.2) = r2.toOption.map some := by
    rw [h2.2,Option.map_map]
    rfl
  rw [hmap]
  cases r2 <;> exact ⟨h2.1,rfl⟩

end

section

def ended (t : Table WorkorderId Workorder) : List (WorkorderId × Time) :=
  (t.entries.filter fun e => e.2.status.terminal).map fun e => (e.1,e.2.updatedAt)

def before (cutoff : Time) (x : WorkorderId × Time) : Bool := x.2 < cutoff

theorem threshold_before (cutoff : Time) : Threshold byUpdatedAt (before cutoff) := by
  intro a b ha hb
  simp only [before,decide_eq_true_eq,decide_eq_false_iff_not,not_lt] at ha hb
  exact ⟨le_of_lt (lt_of_lt_of_le ha hb),not_le.mpr (lt_of_lt_of_le ha hb)⟩

variable (cutoff : Time) (t : Table WorkorderId Workorder)

theorem staleIds_eq : staleIds cutoff t = ((ended t).filter (before cutoff)).map (·.1) := by
  unfold staleIds ended
  rw [List.filter_map,List.filter_filter,List.map_map]
  congr 1
  apply List.filter_congr
  intro e _
  simp [before,Bool.and_comm]

theorem mem_staleIds {e : Sigma fun _ : WorkorderId => Workorder} (he : e ∈ t.entries) :
    e.1 ∈ staleIds cutoff t ↔ e.2.status.terminal ∧ e.2.updatedAt < cutoff := by
  constructor
  · intro h
    obtain ⟨x,hx,hid⟩ := List.mem_map.mp h
    obtain ⟨hm,hp⟩ := List.mem_filter.mp hx
    have hsame : x = e := by
      have h1 : t.lookup x.1 = some x.2 := AList.mem_lookup_iff.mpr hm
      have h2 : t.lookup e.1 = some e.2 := AList.mem_lookup_iff.mpr he
      rw [hid,h2] at h1
      exact Sigma.ext hid (heq_of_eq (Option.some.inj h1).symm)
    simpa [hsame] using hp
  · intro h
    exact List.mem_map.mpr ⟨e,List.mem_filter.mpr ⟨he,by simpa using h⟩,rfl⟩

def kept : Table WorkorderId Workorder := without (staleIds cutoff t) t

theorem ended_kept : ended (kept cutoff t) = (ended t).filter fun x => !before cutoff x := by
  unfold ended kept without AList.keep
  rw [List.filter_map,List.filter_filter,List.filter_filter]
  congr 1
  apply List.filter_congr
  intro e he
  have hm := mem_staleIds cutoff t he
  by_cases ht : e.2.status.terminal
  · by_cases hc : e.2.updatedAt < cutoff
    · simp [before,ht,hc,hm.mpr ⟨ht,hc⟩]
    · have hn : e.1 ∉ staleIds cutoff t := fun h => hc (hm.mp h).2
      simp [before,ht,hc,hn]
  · simp [ht]

theorem nodup_staleIds : (staleIds cutoff t).Nodup :=
  t.keys_nodup.sublist (List.filter_sublist.map _)

theorem length_without {ids : List WorkorderId} (hd : ids.Nodup)
    (hk : ∀ id ∈ ids, (t.lookup id).isSome) :
    (without ids t).entries.length+ids.length = t.entries.length := by
  have hgone : (t.entries.filter fun e => ids.contains e.1).length = ids.length := by
    have hperm : ((t.entries.filter fun e => ids.contains e.1).map (·.1)).Perm ids := by
      refine (List.perm_ext_iff_of_nodup
        (t.keys_nodup.sublist (List.filter_sublist.map _)) hd).mpr fun id => ?_
      constructor
      · intro h
        obtain ⟨e,he,rfl⟩ := List.mem_map.mp h
        simpa using (List.mem_filter.mp he).2
      · intro h
        obtain ⟨v,hv⟩ := Option.isSome_iff_exists.mp (hk id h)
        exact List.mem_map.mpr
          ⟨⟨id,v⟩,List.mem_filter.mpr ⟨AList.mem_lookup_iff.mp hv,by simpa using h⟩,rfl⟩
    rw [← hperm.length_eq,List.length_map]
  have hsplit := List.length_eq_length_filter_add (l := t.entries) fun e => ids.contains e.1
  have hrest : (without ids t).entries = t.entries.filter fun e => !ids.contains e.1 := rfl
  rw [hrest]
  omega

theorem length_kept :
    (kept cutoff t).entries.length+(staleIds cutoff t).length = t.entries.length := by
  refine length_without t (nodup_staleIds cutoff t) fun id h => ?_
  obtain ⟨v,hv,-⟩ := staleIds_terminal cutoff t id h
  simp [hv]

variable {cutoff t} {cutoff' : Time} {id : WorkorderId}

/-- What the cap takes after a first phase with an earlier cutoff is taken by
one of the two phases with the later cutoff. -/
theorem excessIds_kept {cap : ℕ} (hc : cutoff' ≤ cutoff) (h : id ∈ excessIds cap (kept cutoff' t)) :
    id ∈ staleIds cutoff t ∨ id ∈ excessIds cap (kept cutoff t) := by
  have hpart : ((ended t).filter fun x => !before cutoff' x).filter (fun x => !before cutoff x) =
      (ended t).filter fun x => !before cutoff x := by
    rw [List.filter_filter]
    apply List.filter_congr
    intro x _
    by_cases hx : x.2 < cutoff
    · simp [before,hx]
    · simp [before,hx,not_lt.mpr (hc.trans (not_lt.mp hx))]
  have hbetween : ((ended t).filter (before cutoff)).length =
      ((ended t).filter (before cutoff')).length+
        (((ended t).filter fun x => !before cutoff' x).filter (before cutoff)).length := by
    have hsplit := List.length_eq_length_filter_add (l := (ended t).filter (before cutoff))
      (before cutoff')
    rw [hsplit,List.filter_filter,List.filter_filter,List.filter_filter]
    congr 2
    · apply List.filter_congr
      intro x _
      by_cases hx : x.2 < cutoff'
      · simp [before,hx,hx.trans_le hc]
      · simp [before,hx]
    · apply List.filter_congr
      intro x _
      rw [Bool.and_comm]
  unfold excessIds at h
  split at h
  · next hcap =>
    obtain ⟨x,hx,rfl⟩ := List.mem_map.mp h
    change x ∈ ((ended (kept cutoff' t)).insertionSort byUpdatedAt).take _ at hx
    rw [ended_kept,insertionSort_split (threshold_before cutoff),hpart,List.take_append,
      List.mem_append,List.length_insertionSort] at hx
    rcases hx with hx | hx
    · have hm := (List.mem_insertionSort byUpdatedAt).mp (List.mem_of_mem_take hx)
      obtain ⟨hm,hb⟩ := List.mem_filter.mp hm
      refine .inl ?_
      rw [staleIds_eq]
      exact List.mem_map.mpr ⟨x,List.mem_filter.mpr ⟨List.mem_of_mem_filter hm,hb⟩,rfl⟩
    · have hlen := length_kept cutoff t
      have hlen' := length_kept cutoff' t
      rw [staleIds_eq,List.length_map] at hlen hlen'
      have hnum : (kept cutoff' t).entries.length-cap-
          (((ended t).filter fun x => !before cutoff' x).filter (before cutoff)).length =
          (kept cutoff t).entries.length-cap := by omega
      rw [hnum] at hx
      have hpos : cap < (kept cutoff t).entries.length := by
        by_contra hn
        rw [Nat.sub_eq_zero_of_le (not_lt.mp hn)] at hx
        cases hx
      refine .inr ?_
      unfold excessIds
      rw [if_pos ⟨hcap.1,hpos⟩]
      refine List.mem_map.mpr ⟨x,?_,rfl⟩
      change x ∈ ((ended (kept cutoff t)).insertionSort byUpdatedAt).take _
      rw [ended_kept]
      exact hx
  · cases h

theorem evictWorkorders_keeps {config config' : ServerConfig} (s : Server)
    (hcap : config'.maxRetainedWorkorders = config.maxRetainedWorkorders) (hc : cutoff' ≤ cutoff)
    (h : (evictWorkorders config cutoff s).1.workorders.lookup id ≠ none) :
    (evictWorkorders config' cutoff' s).1.workorders.lookup id ≠ none := by
  change (without (excessIds _ (kept cutoff s.workorders)) (kept cutoff s.workorders)).lookup id ≠
    none at h
  change (without (excessIds _ (kept cutoff' s.workorders))
    (kept cutoff' s.workorders)).lookup id ≠ none
  have hkept : ∀ c, (kept c s.workorders).lookup id =
      if id ∈ staleIds c s.workorders then none else s.workorders.lookup id :=
    fun c => lookup_without _ _ _
  rw [lookup_without,hkept] at h ⊢
  rw [hcap]
  split at h
  · exact absurd rfl h
  · next hexcess =>
    split at h
    · exact absurd rfl h
    · next hstale =>
      have hstale' : id ∉ staleIds cutoff' s.workorders := by
        intro hin
        rw [staleIds_eq] at hin hstale
        obtain ⟨x,hx,rfl⟩ := List.mem_map.mp hin
        obtain ⟨hm,hb⟩ := List.mem_filter.mp hx
        refine hstale (List.mem_map.mpr ⟨x,List.mem_filter.mpr ⟨hm,?_⟩,rfl⟩)
        simp only [before,decide_eq_true_eq] at hb ⊢
        exact hb.trans_le hc
      have hexcess' : id ∉ excessIds config.maxRetainedWorkorders (kept cutoff' s.workorders) :=
        fun hin => (excessIds_kept hc hin).elim hstale hexcess
      rw [if_neg hexcess',if_neg hstale']
      exact h

end

section

/-- Neither an eviction nor a cleanup pass at that time panics. -/
structure Calm (env : Codecs) (config : ServerConfig) (now : Time) : Prop where
  eviction : ∀ (w : ServerOracle) s s' r, w.time = now →
    serverSem env config .evict w s = some (s',r) → r ≠ none
  cleanup : ∀ active s, After (storeSem env) (outcome (cleanupSnapshotStorageAt config active now))
    (fun _ r => r ≠ .ok none) s

/-- No entry is exactly as old as the grace window. One that is counts as expired. -/
def OffCutoff (config : ServerConfig) (now : Time) (s : StoredEntries) : Prop :=
  ∀ key m, s.lookup key = some m →
    m.lastReferencedAt ≠ now-hours config.snapshotCacheGracePeriodHours

/-- What is removed for its age is older than the configured window. -/
structure Honours (env : Codecs) (config : ServerConfig) (now : Time) (s : StoredEntries) :
    Prop where
  workorders : ∀ cutoff t id v, hoursBefore now config.retentionHours = some cutoff →
    id ∈ staleIds cutoff t → t.lookup id = some v →
    hours config.retentionHours < now-v.updatedAt
  entries : ∀ active, DeletesOnlyAged env (now-hours config.snapshotCacheGracePeriodHours-1)
    (outcome (cleanupSnapshotStorageAt config active now)) s

/-- Whatever survives a pass under the first settings survives one under the
second settings from the same state. -/
structure KeepsMore (env : Codecs) (config config' : ServerConfig) (now : Time) : Prop where
  workorders : ∀ s cutoff cutoff' id, hoursBefore now config.retentionHours = some cutoff →
    hoursBefore now config'.retentionHours = some cutoff' →
    (evictWorkorders config cutoff s).1.workorders.lookup id ≠ none →
    (evictWorkorders config' cutoff' s).1.workorders.lookup id ≠ none
  entries : ∀ active s s1 s2 r1 r2,
    Runs (servedStore env) (outcome (cleanupSnapshotStorageAt config active now)) s s1 r1 →
    Runs (servedStore env) (outcome (cleanupSnapshotStorageAt config' active now)) s s2 r2 →
    ∀ key, Present s1 key → Present s2 key

/-- The second settings raise windows of the first and change nothing else. -/
structure Raises (config config' : ServerConfig) : Prop where
  retention : config.retentionHours ≤ config'.retentionHours
  grace : config.snapshotCacheGracePeriodHours ≤ config'.snapshotCacheGracePeriodHours
  hard : config.snapshotCacheHardDeleteHours ≤ config'.snapshotCacheHardDeleteHours
  rest : config' = { config with
    retentionHours := config'.retentionHours
    snapshotCacheGracePeriodHours := config'.snapshotCacheGracePeriodHours
    snapshotCacheHardDeleteHours := config'.snapshotCacheHardDeleteHours }

def FitsU64 (config : ServerConfig) : Prop :=
  config.retentionHours < 2^64 ∧ config.snapshotCacheGracePeriodHours < 2^64 ∧
    config.snapshotCacheHardDeleteHours < 2^64

def Sound (config : ServerConfig) (now : Time) : Prop :=
  NoOverflow now config.retentionHours ∧
  hoursBefore now config.snapshotCacheGracePeriodHours ≠ none ∧
  hoursBefore now config.snapshotCacheHardDeleteHours ≠ none ∧
  (2^64-1 ≤ config.snapshotMinRetainedBytes ∨
    NoOverflow now config.snapshotCacheGracePeriodHours ∧
    NoOverflow now config.snapshotCacheHardDeleteHours ∧
    config.snapshotCacheGracePeriodHours ≤ config.snapshotCacheHardDeleteHours)

instance (config : ServerConfig) : Decidable (FitsU64 config) :=
  inferInstanceAs (Decidable (_ ∧ _ ∧ _))

instance (config : ServerConfig) (now : Time) : Decidable (Sound config now) :=
  inferInstanceAs (Decidable (_ ∧ _ ∧ _ ∧ (_ ∨ _)))

theorem fitsU64_validate {config : ServerConfig} (h : FitsU64 config) :
    FitsU64 config.validate := by
  unfold FitsU64 at *
  simp only [ServerConfig.validate,defaultSnapshotCacheGracePeriodHours,
    defaultSnapshotCacheHardDeleteHours]
  split_ifs <;> omega

theorem Raises.fits {config config' : ServerConfig} (h : Raises config config')
    (hf : FitsU64 config') : FitsU64 config :=
  ⟨h.retention.trans_lt hf.1,h.grace.trans_lt hf.2.1,h.hard.trans_lt hf.2.2⟩

theorem validate_grace_pos (config : ServerConfig) :
    0 < config.validate.snapshotCacheGracePeriodHours := by
  simp only [ServerConfig.validate,defaultSnapshotCacheGracePeriodHours]
  split_ifs <;> omega

variable (env : Codecs) {config config' : ServerConfig} {now : ℤ}

theorem calm_iff : Calm env config now ↔
    hoursBefore now config.retentionHours ≠ none ∧
    hoursBefore now config.snapshotCacheGracePeriodHours ≠ none ∧
    hoursBefore now config.snapshotCacheHardDeleteHours ≠ none := by
  constructor
  · intro h
    have hclean : ∀ {r},
        Runs (storeSem env) (outcome (cleanupSnapshotStorageAt config [] now)) ∅ ∅ r →
        r ≠ .ok none := fun hr => (after_iff _ _ _).mp (h.cleanup [] ∅) _ _ hr
    refine ⟨fun hn => ?_,fun hn => ?_,fun hn => ?_⟩
    · have hs : serverSem env config .evict { time := now } (boot config now ∅ ⟨none,none,none⟩ []) =
          some (boot config now ∅ ⟨none,none,none⟩ [],none) := by
        simp only [serverSem]
        rw [hn]
        rfl
      exact h.eviction _ _ _ _ rfl hs rfl
    · refine hclean ?_ rfl
      unfold cleanupSnapshotStorageAt collectCleanup
      rw [hn]
      exact .ret _ _
    · refine hclean ?_ rfl
      unfold cleanupSnapshotStorageAt collectCleanup
      rw [hn]
      cases hoursBefore now config.snapshotCacheGracePeriodHours <;> exact .ret _ _
  · rintro ⟨hr,hg,hh⟩
    obtain ⟨graceCutoff,hg⟩ := Option.ne_none_iff_exists'.mp hg
    obtain ⟨hardDeleteCutoff,hh⟩ := Option.ne_none_iff_exists'.mp hh
    obtain ⟨cutoff,hr⟩ := Option.ne_none_iff_exists'.mp hr
    constructor
    · intro w s s' r ht hs
      simp only [serverSem,ht,hr,Option.ite_none_right_eq_some] at hs
      cases hs.2
      intro hnone
      cases hnone
    · intro active s
      unfold cleanupSnapshotStorageAt
      rw [outcome_bind]
      refine after_seq (after_collectCleanup ⟨hg,hh⟩ s) fun s1 r1 h1 => ?_
      cases r1 with
      | error f =>
        intro hnone
        cases hnone
      | ok plan =>
        cases h1.2 plan rfl
        change After _ (outcome (deleteCollected config _ >>= _)) _ _
        rw [outcome_bind]
        refine (after_bind _ _ _ _).mpr (after_mono ((after_iff _ _ _).mpr
          fun _ _ _ => trivial) fun s2 r2 _ => ?_)
        cases r2 <;> (intro hnone; cases hnone)

theorem cutoff_eq {cutoff : ℤ} {n : ℕ} (h : hoursBefore now n = some cutoff)
    (hn : NoOverflow now n) : cutoff = now-hours n := Option.some.inj (h.symm.trans hn)

variable {at_ : ℤ} {t : Time} {active : List SnapshotReferenceSet} {s s' : StoredEntries}
  {r : Except Failure (Option SnapshotCleanupSummary)}

theorem older_than_window {window : ℤ} (h : at_ < now-window) : window < now-at_ := by
  omega

theorem strictly_older {grace hard : ℤ} (h : at_ ≤ now-grace ∨ at_ ≤ now-hard)
    (hle : now-hard ≤ now-grace) (hne : at_ ≠ now-grace) : at_ ≤ now-grace-1 := by
  omega

def endedAt (at_ : Time) : Workorder :=
  ⟨"w1","c1",.main,[],[],.default,"",none,.completed,at_,at_⟩

theorem noOverflow_of_workorders (hn : config.retentionHours < 2^64)
    (hsome : hoursBefore now config.retentionHours ≠ none) (h : Honours env config now s) :
    NoOverflow now config.retentionHours := by
  refine (noOverflow_iff hn).mpr ⟨?_,hsome⟩
  by_contra hlarge
  obtain ⟨cutoff,hc⟩ := Option.ne_none_iff_exists'.mp hsome
  have hfuture : now < cutoff := by
    rw [hoursBefore_some hc,asI64_of_ge (by omega) hn]
    omega
  have hstale : "w1" ∈
      staleIds cutoff ((∅ : Table WorkorderId Workorder).insert "w1" (endedAt now)) :=
    (mem_staleIds cutoff _ (e := ⟨"w1",endedAt now⟩) List.mem_cons_self).mpr ⟨rfl,hfuture⟩
  have hage := h.workorders cutoff _ _ _ hc hstale (AList.lookup_insert _)
  change hours config.retentionHours < now-now at hage
  unfold hours at hage
  omega

theorem lookup_lone {key : Key} {m : StoredMetadata} (h : (lone t).lookup key = some m) :
    m.lastReferencedAt = t := by
  unfold lone at h
  rw [AList.lookup_insert_ite] at h
  split at h
  · cases h
    rfl
  · cases h

theorem lone_expired {graceCutoff hardDeleteCutoff t : ℤ}
    (cuts : Cutoffs config now graceCutoff hardDeleteCutoff)
    (hfloor : config.snapshotMinRetainedBytes < 2^64-1)
    (h : ∀ s, OffCutoff config now s → Honours env config now s)
    (hne : t ≠ now-hours config.snapshotCacheGracePeriodHours)
    (ht : t ≤ graceCutoff ∨ t ≤ hardDeleteCutoff) :
    t ≤ now-hours config.snapshotCacheGracePeriodHours-1 := by
  have hoff : OffCutoff config now (lone t) := by
    intro key m hm
    rw [lookup_lone hm]
    exact hne
  exact deletesOnlyAged_lone env cuts hfloor ht ((h _ hoff).entries [])

theorem ordered_of_entries (hf : FitsU64 config)
    (hpos : 0 < config.snapshotCacheGracePeriodHours)
    (hg : hoursBefore now config.snapshotCacheGracePeriodHours ≠ none)
    (hh : hoursBefore now config.snapshotCacheHardDeleteHours ≠ none)
    (hfloor : config.snapshotMinRetainedBytes < 2^64-1)
    (h : ∀ s, OffCutoff config now s → Honours env config now s) :
    NoOverflow now config.snapshotCacheGracePeriodHours ∧
    NoOverflow now config.snapshotCacheHardDeleteHours ∧
    config.snapshotCacheGracePeriodHours ≤ config.snapshotCacheHardDeleteHours := by
  obtain ⟨graceCutoff,hgc⟩ := Option.ne_none_iff_exists'.mp hg
  obtain ⟨hardDeleteCutoff,hhc⟩ := Option.ne_none_iff_exists'.mp hh
  have hexpired := fun {t : ℤ} => lone_expired env (t := t) ⟨hgc,hhc⟩ hfloor h
  unfold hours at hexpired
  have hnow : ¬(now ≤ graceCutoff ∨ now ≤ hardDeleteCutoff) := by
    intro hfuture
    have := hexpired (by omega) hfuture
    omega
  have hgrace : NoOverflow now config.snapshotCacheGracePeriodHours := by
    refine (noOverflow_iff hf.2.1).mpr ⟨?_,hg⟩
    by_contra hlarge
    refine hnow (.inl ?_)
    rw [hoursBefore_some hgc,asI64_of_ge (by omega) hf.2.1]
    have := hf.2.1
    omega
  have hhard : NoOverflow now config.snapshotCacheHardDeleteHours := by
    refine (noOverflow_iff hf.2.2).mpr ⟨?_,hh⟩
    by_contra hlarge
    refine hnow (.inr ?_)
    rw [hoursBefore_some hhc,asI64_of_ge (by omega) hf.2.2]
    have := hf.2.2
    omega
  refine ⟨hgrace,hhard,?_⟩
  by_contra hless
  have hcut := cutoff_eq hhc hhard
  unfold hours at hcut
  have := hexpired (t := hardDeleteCutoff) (by omega) (.inr le_rfl)
  omega

theorem sound_iff (hf : FitsU64 config) (hpos : 0 < config.snapshotCacheGracePeriodHours) :
    Calm env config now ∧ (∀ s, OffCutoff config now s → Honours env config now s) ↔
      Sound config now := by
  constructor
  · rintro ⟨hcalm,h⟩
    obtain ⟨hr,hg,hh⟩ := (calm_iff env).mp hcalm
    have hempty : OffCutoff config now ∅ := fun key m hm => nomatch hm
    refine ⟨noOverflow_of_workorders env hf.1 hr (h ∅ hempty),hg,hh,?_⟩
    by_cases hfloor : 2^64-1 ≤ config.snapshotMinRetainedBytes
    · exact .inl hfloor
    · exact .inr (ordered_of_entries env hf hpos hg hh (by omega) h)
  · rintro ⟨hr,hg,hh,hwindows⟩
    refine ⟨(calm_iff env).mpr ⟨by rw [hr]; exact nofun,hg,hh⟩,fun s hoff => ⟨?_,?_⟩⟩
    · intro cutoff t id v hc hid hv
      have hm := (mem_staleIds cutoff t (AList.mem_lookup_iff.mp hv)).mp hid
      exact older_than_window (cutoff_eq hc hr ▸ hm.2)
    · intro active
      rcases hwindows with hfloor | ⟨hg,hh,hle⟩
      · obtain ⟨graceCutoff,hgc⟩ := Option.ne_none_iff_exists'.mp hg
        obtain ⟨hardDeleteCutoff,hhc⟩ := Option.ne_none_iff_exists'.mp hh
        exact deletesOnlyAged_of_floor env active s ⟨hgc,hhc⟩ hfloor
      · refine deletesOnlyAged_cleanup env active ⟨hg,hh⟩ fun key m hm ht => ?_
        exact strictly_older ht (hoursAgo_le.mpr hle) (hoff key m hm)

theorem Sound.orders (h : Sound config now) (hfloor : config.snapshotMinRetainedBytes < 2^64-1) :
    NoOverflow now config.snapshotCacheGracePeriodHours ∧
    NoOverflow now config.snapshotCacheHardDeleteHours ∧
    config.snapshotCacheGracePeriodHours ≤ config.snapshotCacheHardDeleteHours := by
  rcases h.2.2.2 with h | h
  · omega
  · exact h

theorem runs_cleanup_sound (hs : Sound config now)
    (hfloor : config.snapshotMinRetainedBytes < 2^64-1)
    (hr : Runs (servedStore env) (outcome (cleanupSnapshotStorageAt config active now)) s s' r) :
    s' = (swept active config (now-hours config.snapshotCacheGracePeriodHours) s).1 := by
  obtain ⟨hg,hh,hle⟩ := hs.orders hfloor
  have h := (after_iff _ _ _).mp (after_cleanup active ⟨hg,hh⟩ s) _ _ hr
  rw [max_eq_left (hoursAgo_le.mpr hle)] at h
  exact h.1

theorem runs_cleanup_floor (hs : Sound config now)
    (hfloor : 2^64-1 ≤ config.snapshotMinRetainedBytes)
    (hr : Runs (servedStore env) (outcome (cleanupSnapshotStorageAt config active now)) s s' r) :
    s' = s := by
  obtain ⟨-,hg,hh,-⟩ := hs
  obtain ⟨graceCutoff,hg⟩ := Option.ne_none_iff_exists'.mp hg
  obtain ⟨hardDeleteCutoff,hh⟩ := Option.ne_none_iff_exists'.mp hh
  have h := (after_iff _ _ _).mp (after_cleanup active ⟨hg,hh⟩ s) _ _ hr
  have htotal : passTotal s ≤ 2^64-1 :=
    retainedTotal_le _ _ (retainedTotal_le _ _ (Nat.zero_le _))
  rw [swept,sweep_of_le (htotal.trans hfloor)] at h
  exact h.1

theorem swept_lone (h : config.snapshotMinRetainedBytes < 2^64-1) (cutoff t : Time) :
    (swept [] config cutoff (lone t)).1 =
      if t ≤ cutoff then (lone t).erase (.blob,sampleSha256 []) else lone t := by
  have htotal : passTotal (lone t) = 2^64-1 :=
    congrArg CleanupPlan.totalRetainedBytes (planFor_lone 0 0 t)
  have hvalid : ¬validDigest (loneEntry t).digest = false := by
    change ¬validDigest (sampleSha256 []) = false
    decide
  unfold swept passOrder
  rw [htotal,storeCandidates_lone]
  by_cases ht : t ≤ cutoff
  · have hold : [loneEntry t].filter (aged cutoff) = [loneEntry t] := by simp [aged,loneEntry,ht]
    rw [hold,if_pos ht]
    exact (congrArg Prod.fst (if_neg (not_le.mpr h))).trans
      (congrArg Prod.fst (if_neg hvalid))
  · have hyoung : [loneEntry t].filter (aged cutoff) = [] := by simp [aged,loneEntry,ht]
    rw [hyoung,if_neg ht]
    rfl

/-- An entry that is just as old as the window is removed. -/
theorem window_end_removed (hs : Sound config now)
    (hfloor : config.snapshotMinRetainedBytes < 2^64-1)
    (hr : Runs (servedStore env) (outcome (cleanupSnapshotStorageAt config [] now))
      (lone (now-hours config.snapshotCacheGracePeriodHours)) s' r) :
    ¬Present s' (.blob,sampleSha256 []) := by
  rw [runs_cleanup_sound env hs hfloor hr,swept_lone hfloor,if_pos le_rfl]
  simp [Present,AList.lookup_erase]

/-- From sound settings to sound settings nothing more is removed exactly if the
grace window in effect does not shrink. -/
theorem keepsMore_iff (hs : Sound config now) (hs' : Sound config' now)
    (hret : config.retentionHours ≤ config'.retentionHours)
    (hcap : config'.maxRetainedWorkorders = config.maxRetainedWorkorders)
    (hfl : config'.snapshotMinRetainedBytes = config.snapshotMinRetainedBytes) :
    KeepsMore env config config' now ↔ 2^64-1 ≤ config.snapshotMinRetainedBytes ∨
      config.snapshotCacheGracePeriodHours ≤ config'.snapshotCacheGracePeriodHours := by
  constructor
  · intro h
    by_contra hno
    rw [not_or,not_le,not_le] at hno
    obtain ⟨hfloor,hless⟩ := hno
    have total : ∀ o s, ∃ w s' r, servedStore env o w s = some (s',r) :=
      fun o s => ⟨servedOracle,_,_,rfl⟩
    have hruns := fun (c : ServerConfig) => exists_runs total
      (outcome (cleanupSnapshotStorageAt c [] now))
      (lone (now-hours config'.snapshotCacheGracePeriodHours))
    obtain ⟨s1,r1,hr1⟩ := hruns config
    obtain ⟨s2,r2,hr2⟩ := hruns config'
    refine window_end_removed env hs' (hfl ▸ hfloor) hr2
      (h.entries [] _ s1 s2 r1 r2 hr1 hr2 (.blob,sampleSha256 []) ?_)
    rw [runs_cleanup_sound env hs hfloor hr1,swept_lone hfloor,
      if_neg (fun hle => by have := hoursAgo_le.mp hle; omega)]
    exact present_insert_self _ _
  · intro hgrace
    constructor
    · intro s cutoff cutoff' id hc hc' hid
      refine evictWorkorders_keeps s hcap ?_ hid
      rw [cutoff_eq hc hs.1,cutoff_eq hc' hs'.1]
      exact hoursAgo_le.mpr hret
    · intro active s s1 s2 r1 r2 hr1 hr2 key hkey
      by_cases hfloor : 2^64-1 ≤ config.snapshotMinRetainedBytes
      · rw [runs_cleanup_floor env hs hfloor hr1] at hkey
        rw [runs_cleanup_floor env hs' (hfl ▸ hfloor) hr2]
        exact hkey
      · rw [runs_cleanup_sound env hs (not_le.mp hfloor) hr1] at hkey
        rw [runs_cleanup_sound env hs' (hfl ▸ not_le.mp hfloor) hr2,swept,hfl]
        have hcutoffs : now-hours config'.snapshotCacheGracePeriodHours ≤
            now-hours config.snapshotCacheGracePeriodHours :=
          hoursAgo_le.mpr (hgrace.resolve_left hfloor)
        obtain ⟨rest,hrest⟩ := passOrder_prefix active hcutoffs s
        rw [swept,hrest] at hkey
        exact present_of_sweep_append _ _ _ _ _ hkey

end

def endless : ServerConfig := { ServerConfig.default with retentionHours := 2^64-1 }

def justEnded : Persisted :=
  ⟨some ((∅ : Table WorkorderId Workorder).insert "w1" (endedAt 0)),none,none⟩

end Remerge.RetentionWindows
