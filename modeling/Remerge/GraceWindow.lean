import Remerge.SnapshotUse

/-!
# The grace window

A cleanup pass on its own, with nothing else touching the store. Its plan is
given in closed form from the listing. Deletion goes by the older of the two
cutoffs, so the grace window holds only if the hard-delete window is not the
shorter one. Validation resets a hard-delete window below the grace window to
30 days, which does not help a longer grace window.
-/

set_option autoImplicit false

namespace Remerge.GraceWindow
open StepProgram SnapshotTypes SnapshotStore SnapshotRuntime SnapshotCleanup SnapshotUse

variable {s : StoredEntries} {config : ServerConfig} {cutoff : Time}

def hours (n : ℕ) : ℤ := (n : ℤ)*3600*1000000000

/-- The cutoff of the window is the instant that many hours ago. -/
def NoOverflow (now : Time) (n : ℕ) : Prop := hoursBefore now n = some (now-hours n)

instance (now : Time) (n : ℕ) : Decidable (NoOverflow now n) :=
  inferInstanceAs (Decidable (_ = _))

variable {now : ℤ} {n : ℕ}

theorem hoursAgo_le {a b : ℕ} : now-hours a ≤ now-hours b ↔ b ≤ a := by
  unfold hours
  omega

theorem asI64_of_lt (h : n < 2^63) : asI64 n = n := by
  unfold asI64
  have hn : n%2^64 = n := Nat.mod_eq_of_lt (by omega)
  rw [hn,if_pos h]

theorem asI64_of_ge (h : 2^63 ≤ n) (hn : n < 2^64) : asI64 n = (n : ℤ)-2^64 := by
  unfold asI64
  rw [Nat.mod_eq_of_lt hn,if_neg (by omega)]

theorem hoursBefore_some {t : ℤ} (h : hoursBefore now n = some t) :
    t = now-asI64 n*3600*1000000000 := by
  unfold hoursBefore at h
  dsimp only at h
  split at h
  · exact (Option.some.inj h).symm
  · cases h

/-- A window overflows by a panic or by the wrap of the cast. -/
theorem noOverflow_iff (hn : n < 2^64) :
    NoOverflow now n ↔ n < 2^63 ∧ hoursBefore now n ≠ none := by
  unfold NoOverflow
  constructor
  · intro h
    have ht := hoursBefore_some h
    unfold hours at ht
    refine ⟨?_,by simp [h]⟩
    by_contra hlarge
    rw [asI64_of_ge (by omega) hn] at ht
    omega
  · rintro ⟨hsmall,hsome⟩
    obtain ⟨t,ht⟩ := Option.ne_none_iff_exists'.mp hsome
    rw [ht,hoursBefore_some ht,asI64_of_lt hsmall]
    rfl

section
variable (active : List SnapshotReferenceSet)

def listing (s : StoredEntries) (kind : EntryKind) : List (Digest × StoredMetadata) :=
  s.entries.filterMap fun e => if e.1.1 = kind then some (e.1.2,e.2) else none

theorem mem_listing {kind : EntryKind} {record : Digest × StoredMetadata} :
    record ∈ listing s kind ↔ s.lookup (kind,record.1) = some record.2 := by
  have h : s.lookup (kind,record.1) = some record.2 ↔
      ⟨(kind,record.1),record.2⟩ ∈ s.entries := AList.mem_lookup_iff
  rw [h,listing,List.mem_filterMap]
  constructor
  · rintro ⟨⟨⟨k,d⟩,m⟩,he,hr⟩
    dsimp only at hr
    split at hr
    · next hk =>
      cases hr
      exact hk ▸ he
    · cases hr
  · intro he
    exact ⟨_,he,by simp⟩

def entryFor (kind : EntryKind) (record : Digest × StoredMetadata) : CleanupEntry :=
  ⟨kind,record.1,record.2.lastReferencedAt,StoredMetadata.retainedBytes record.2⟩

def candidates (kind : EntryKind) (records : List (Digest × StoredMetadata)) : List CleanupEntry :=
  (records.filter fun record =>
    !active.any fun references => references.has kind record.1).map (entryFor kind)

def retainedTotal (start : ℕ) (records : List (Digest × StoredMetadata)) : ℕ :=
  records.foldl (fun total record =>
    saturatingAdd total (StoredMetadata.retainedBytes record.2)) start

def aged (cutoff : Time) (e : CleanupEntry) : Bool := e.lastReferencedAt ≤ cutoff

variable (graceCutoff hardDeleteCutoff : Time)

def eligible (e : CleanupEntry) : Bool := !aged hardDeleteCutoff e && aged graceCutoff e

theorem foldl_collectRecord (kind : EntryKind) (records : List (Digest × StoredMetadata))
    (plan : CleanupPlan) :
    records.foldl (collectRecord active graceCutoff hardDeleteCutoff kind) plan =
      ⟨retainedTotal plan.totalRetainedBytes records,
        plan.hardDelete++(candidates active kind records).filter (aged hardDeleteCutoff),
        plan.floorEligible++
          (candidates active kind records).filter (eligible graceCutoff hardDeleteCutoff)⟩ := by
  induction records generalizing plan with
  | nil => simp [retainedTotal,candidates]
  | cons record records ih =>
    rw [List.foldl_cons,ih]
    unfold collectRecord
    dsimp only
    by_cases hactive : (active.any fun references => references.has kind record.1)
    · rw [if_pos hactive]
      simp [candidates,hactive,retainedTotal]
    · rw [if_neg hactive]
      by_cases hhard : record.2.lastReferencedAt ≤ hardDeleteCutoff
      · simp [candidates,hactive,retainedTotal,entryFor,aged,eligible,hhard]
      · by_cases hgrace : record.2.lastReferencedAt ≤ graceCutoff
        · simp [candidates,hactive,retainedTotal,entryFor,aged,eligible,hhard,hgrace]
        · simp [candidates,hactive,retainedTotal,entryFor,aged,eligible,hhard,hgrace]

def storeCandidates (s : StoredEntries) : List CleanupEntry :=
  candidates active .blob (listing s .blob)++candidates active .tree (listing s .tree)

def planFor (s : StoredEntries) : CleanupPlan :=
  ⟨retainedTotal (retainedTotal 0 (listing s .blob)) (listing s .tree),
    (storeCandidates active s).filter (aged hardDeleteCutoff),
    (storeCandidates active s).filter (eligible graceCutoff hardDeleteCutoff)⟩

theorem lookup_of_candidate {e : CleanupEntry} (h : e ∈ storeCandidates active s) :
    ∃ m, s.lookup (e.kind,e.digest) = some m ∧ m.lastReferencedAt = e.lastReferencedAt := by
  have hkind : ∀ {kind : EntryKind}, e ∈ candidates active kind (listing s kind) →
      ∃ m, s.lookup (e.kind,e.digest) = some m ∧ m.lastReferencedAt = e.lastReferencedAt := by
    intro kind hc
    obtain ⟨record,hr,rfl⟩ := List.mem_map.mp hc
    exact ⟨record.2,mem_listing.mp (List.mem_of_mem_filter hr),rfl⟩
  rcases List.mem_append.mp h with hb | ht
  · exact hkind hb
  · exact hkind ht

variable {active graceCutoff hardDeleteCutoff} {now : Time} {env : Codecs}

theorem after_collectCleanup (cuts : Cutoffs config now graceCutoff hardDeleteCutoff)
    (s : StoredEntries) :
    After (storeSem env) (outcome (collectCleanup config active now)) (fun s' r => s' = s ∧
      ∀ p, r = .ok p → p = some (planFor active graceCutoff hardDeleteCutoff s)) s := by
  unfold collectCleanup
  rw [cuts.grace,cuts.hard]
  have hlist : ∀ {kind : EntryKind} {w : StoreOracle} {s' : StoredEntries}
      {r : StoreRes (.listMetadata kind)}, storeSem env (.listMetadata kind) w s = some (s',r) →
      s' = s ∧ ∀ records, r = .ok records → records = listing s kind := by
    intro kind w s' r hs
    unfold storeSem at hs
    split at hs
    · cases hs
      refine ⟨rfl,fun records hr => ?_⟩
      exact (Except.ok.inj hr).symm
    · obtain ⟨r',hf,he⟩ := Option.map_eq_some_iff.mp hs
      cases he
      cases hf
      exact ⟨rfl,fun records hr => nomatch hr⟩
  intro w1 s1 r1 hs1
  obtain ⟨rfl,hblobs⟩ := hlist hs1
  cases r1 with
  | error e => exact ⟨rfl,fun p hp => nomatch hp⟩
  | ok blobs =>
    cases hblobs blobs rfl
    intro w2 s2 r2 hs2
    obtain ⟨rfl,htrees⟩ := hlist hs2
    cases r2 with
    | error e => exact ⟨rfl,fun p hp => nomatch hp⟩
    | ok trees =>
      cases htrees trees rfl
      refine ⟨rfl,fun p hp => ?_⟩
      rw [← Except.ok.inj hp,foldl_collectRecord,foldl_collectRecord]
      simp [planFor,storeCandidates]

end

section

def DeletesAged (cutoff : Time) (o : StoreOp) (s : StoredEntries) : Prop :=
  ∀ key m, o.deletes = some key → s.lookup key = some m → m.lastReferencedAt ≤ cutoff

def DeletesOnlyAged {α : Type} (env : Codecs) (cutoff : Time) (p : Prog StoreOp StoreRes α)
    (s : StoredEntries) : Prop :=
  Throughout (storeSem env) (fun _ _ => True) (DeletesAged cutoff) p s

/-- Whatever is in the store and in use, every deletion of a pass at that time
is of an entry outside the grace window. -/
def HonoursGrace (env : Codecs) (config : ServerConfig) (now : Time) : Prop :=
  ∀ active s, DeletesOnlyAged env (now-hours config.snapshotCacheGracePeriodHours)
    (outcome (cleanupSnapshotStorageAt config active now)) s

/-- Where an entry on the list is still stored, it is an aged one. -/
def AgedIfStored (cutoff : Time) (s : StoredEntries) (entries : List CleanupEntry) : Prop :=
  ∀ e ∈ entries, ∀ m, s.lookup (e.kind,e.digest) = some m → m.lastReferencedAt ≤ cutoff

variable (env : Codecs)

theorem agedIfStored_of_delete {env : Codecs} {kind : EntryKind} {digest : Digest} {w : StoreOracle}
    {s' : StoredEntries} {r : StoreRes (.delete kind digest)} {entries : List CleanupEntry}
    (hs : storeSem env (.delete kind digest) w s = some (s',r))
    (h : AgedIfStored cutoff s entries) : AgedIfStored cutoff s' entries := by
  have herased : ∀ key m, s'.lookup key = some m → s.lookup key = some m := by
    intro key m hm
    unfold storeSem at hs
    split at hs
    · simp only [storeEffect] at hs
      split at hs
      · cases hs
        exact hm
      · cases hs
        rw [AList.lookup_erase_ite] at hm
        split at hm
        · cases hm
        · exact hm
    · obtain ⟨r',hf,he⟩ := Option.map_eq_some_iff.mp hs
      cases he
      exact hm
  exact fun e he m hm => h e he m (herased _ m hm)

theorem deletesOnlyAged_entry (e : CleanupEntry) (summary : SnapshotCleanupSummary)
    {others : List CleanupEntry} (h : AgedIfStored cutoff s (e::others)) :
    DeletesOnlyAged env cutoff (outcome (deleteCleanupEntry e summary)) s ∧
      After (storeSem env) (outcome (deleteCleanupEntry e summary))
        (fun s' _ => AgedIfStored cutoff s' others) s := by
  have hothers : AgedIfStored cutoff s others := fun e' he => h e' (List.mem_cons_of_mem _ he)
  unfold deleteCleanupEntry
  constructor
  · intro _
    constructor
    · intro key m hk hm
      cases hk
      exact h e List.mem_cons_self m hm
    · intro w s' r hs
      cases r with
      | error f => trivial
      | ok u => cases e.kind <;> trivial
  · intro w s' r hs
    have hkept := agedIfStored_of_delete hs hothers
    cases r with
    | error f => exact hkept
    | ok u => cases e.kind <;> exact hkept

theorem deletesOnlyAged_whileAbove (floor : ℕ) (entries others : List CleanupEntry) (total : ℕ)
    (summary : SnapshotCleanupSummary) (h : AgedIfStored cutoff s (entries++others)) :
    DeletesOnlyAged env cutoff (outcome (deleteWhileAbove floor entries total summary)) s ∧
      After (storeSem env) (outcome (deleteWhileAbove floor entries total summary))
        (fun s' _ => AgedIfStored cutoff s' others) s := by
  induction entries generalizing s total summary with
  | nil => exact ⟨trivial,h⟩
  | cons e rest ih =>
    unfold deleteWhileAbove
    split
    · exact ⟨trivial,fun e' he => h e' (List.mem_append_right _ he)⟩
    · obtain ⟨hfirst,hkept⟩ := deletesOnlyAged_entry env e summary h
      rw [outcome_bind]
      constructor
      · refine throughout_seq hfirst hkept fun s' r hr => ?_
        cases r with
        | error f => trivial
        | ok summary' => exact (ih _ _ hr).1
      · refine after_seq hkept fun s' r hr => ?_
        cases r with
        | error f => exact fun e' he => hr e' (List.mem_append_right _ he)
        | ok summary' => exact (ih _ _ hr).2

theorem deletesOnlyAged_deleteCollected (config : ServerConfig) (plan : CleanupPlan)
    (h : AgedIfStored cutoff s (plan.hardDelete++plan.floorEligible)) :
    DeletesOnlyAged env cutoff (outcome (deleteCollected config plan)) s := by
  have hsorted : AgedIfStored cutoff s (plan.hardDelete.insertionSort byLastReferenced++
      (plan.floorEligible.insertionSort byLastReferenced++[])) := by
    intro e he
    simp only [List.append_nil,List.mem_append,List.mem_insertionSort] at he
    exact h e (List.mem_append.mpr he)
  unfold deleteCollected
  dsimp only
  split
  · trivial
  · have hfirst := deletesOnlyAged_whileAbove env config.snapshotMinRetainedBytes _ _
      plan.totalRetainedBytes ⟨0,0,0⟩ hsorted
    rw [outcome_bind]
    refine throughout_seq hfirst.1 hfirst.2 fun s' r hr => ?_
    cases r with
    | error f => trivial
    | ok first =>
      have hsecond := deletesOnlyAged_whileAbove env config.snapshotMinRetainedBytes _ _
        first.1 first.2 hr
      change DeletesOnlyAged env cutoff (outcome (deleteWhileAbove _ _ _ _ >>= _)) s'
      rw [outcome_bind]
      refine throughout_seq hsecond.1 hsecond.2 fun s'' r' _ => ?_
      cases r' with
      | error f => trivial
      | ok second => trivial

theorem deletesOnlyAged_collectCleanup (config : ServerConfig)
    (active : List SnapshotReferenceSet) (now : Time) :
    DeletesOnlyAged env cutoff (outcome (collectCleanup config active now)) s := by
  have hlist : ∀ (kind : EntryKind) (s' : StoredEntries),
      DeletesAged cutoff (.listMetadata kind) s' := fun _ _ _ _ hk => nomatch hk
  unfold collectCleanup
  split
  · refine fun _ => ⟨hlist .blob s,fun w1 s1 r1 _ => ?_⟩
    cases r1 with
    | error f => trivial
    | ok blobs =>
      refine fun _ => ⟨hlist .tree s1,fun w2 s2 r2 _ => ?_⟩
      cases r2 with
      | error f => trivial
      | ok trees => trivial
  · trivial

variable {graceCutoff hardDeleteCutoff now : Time}

theorem deletesOnlyAged_cleanup (active : List SnapshotReferenceSet)
    (cuts : Cutoffs config now graceCutoff hardDeleteCutoff)
    (h : ∀ key m, s.lookup key = some m → m.lastReferencedAt ≤ graceCutoff ∨
      m.lastReferencedAt ≤ hardDeleteCutoff → m.lastReferencedAt ≤ cutoff) :
    DeletesOnlyAged env cutoff (outcome (cleanupSnapshotStorageAt config active now)) s := by
  have hplan : AgedIfStored cutoff s
      ((planFor active graceCutoff hardDeleteCutoff s).hardDelete++
        (planFor active graceCutoff hardDeleteCutoff s).floorEligible) := by
    intro e he m hm
    simp only [planFor,List.mem_append,List.mem_filter,aged,eligible,Bool.and_eq_true,
      decide_eq_true_eq] at he
    have hcand : e ∈ storeCandidates active s := he.elim (·.1) (·.1)
    obtain ⟨m',hm',ht⟩ := lookup_of_candidate active hcand
    have hsame : m' = m := Option.some.inj (hm'.symm.trans hm)
    refine h _ m hm ?_
    rw [← hsame,ht]
    exact he.elim (fun x => .inr x.2) (fun x => .inl x.2.2)
  unfold cleanupSnapshotStorageAt
  rw [outcome_bind]
  refine throughout_seq (deletesOnlyAged_collectCleanup env config active now)
    (after_collectCleanup cuts s) fun s' r hr => ?_
  obtain ⟨rfl,hp⟩ := hr
  cases r with
  | error f => trivial
  | ok plan =>
    cases hp plan rfl
    change DeletesOnlyAged env cutoff (outcome (deleteCollected config _ >>= _)) s'
    rw [outcome_bind]
    refine (throughout_bind_iff (fun r s => ?_) s').mpr
      (deletesOnlyAged_deleteCollected env config _ hplan)
    cases r with
    | error f => trivial
    | ok summary => trivial

end

/-- The validated windows are ordered unless the grace window is longer than
both the default and the configured hard-delete window. -/
theorem validate_ordered_iff (config : ServerConfig) :
    config.validate.snapshotCacheGracePeriodHours ≤ config.validate.snapshotCacheHardDeleteHours ↔
      config.snapshotCacheGracePeriodHours ≤ defaultSnapshotCacheHardDeleteHours ∨
        config.snapshotCacheGracePeriodHours ≤ config.snapshotCacheHardDeleteHours := by
  simp only [ServerConfig.validate,defaultSnapshotCacheGracePeriodHours,
    defaultSnapshotCacheHardDeleteHours]
  split_ifs <;> omega

theorem retainedTotal_le (start : ℕ) (records : List (Digest × StoredMetadata))
    (h : start ≤ 2^64-1) : retainedTotal start records ≤ 2^64-1 := by
  induction records generalizing start with
  | nil => exact h
  | cons record records ih =>
    exact ih _ (Nat.min_le_right _ _)

section
variable (env : Codecs) {now graceCutoff hardDeleteCutoff : Time}

def servedOracle : StoreOracle := ⟨0,none,.default,∅,[]⟩

theorem runs_collectCleanup (active : List SnapshotReferenceSet)
    (cuts : Cutoffs config now graceCutoff hardDeleteCutoff)
    (s : StoredEntries) :
    Runs (storeSem env) (outcome (collectCleanup config active now)) s s
      (.ok (some (planFor active graceCutoff hardDeleteCutoff s))) := by
  have hruns : ∃ plan, Runs (storeSem env) (outcome (collectCleanup config active now)) s s
      (.ok plan) := by
    unfold collectCleanup
    rw [cuts.grace,cuts.hard]
    refine ⟨_,.step (w := servedOracle) rfl (.step (w := servedOracle) rfl (.ret _ _))⟩
  obtain ⟨plan,hr⟩ := hruns
  have hplan := ((after_iff _ _ _).mp (after_collectCleanup cuts s) _ _ hr).2 plan rfl
  exact hplan ▸ hr

def lone (lastReferencedAt : Time) : StoredEntries :=
  (∅ : StoredEntries).insert (.blob,sampleSha256 []) ⟨sampleSha256 [],2^64-1,lastReferencedAt,none⟩

def loneEntry (lastReferencedAt : Time) : CleanupEntry :=
  ⟨.blob,sampleSha256 [],lastReferencedAt,2^64-1⟩

theorem storeCandidates_lone (t : Time) : storeCandidates [] (lone t) = [loneEntry t] := rfl

theorem planFor_lone (graceCutoff hardDeleteCutoff t : Time) :
    planFor [] graceCutoff hardDeleteCutoff (lone t) =
    ⟨2^64-1,[loneEntry t].filter (aged hardDeleteCutoff),
      [loneEntry t].filter (eligible graceCutoff hardDeleteCutoff)⟩ := by
  have hblob : listing (lone t) .blob = [(sampleSha256 [],⟨sampleSha256 [],2^64-1,t,none⟩)] := rfl
  have htree : listing (lone t) .tree = [] := rfl
  simp only [planFor,storeCandidates_lone,hblob,htree]
  simp [retainedTotal,saturatingAdd,StoredMetadata.retainedBytes]

theorem deletesAged_of_whileAbove {floor total : ℕ} {e : CleanupEntry}
    {summary : SnapshotCleanupSummary} (hf : floor < total)
    (h : DeletesOnlyAged env cutoff (outcome (deleteWhileAbove floor [e] total summary)) s) :
    DeletesAged cutoff (.delete e.kind e.digest) s := by
  unfold deleteWhileAbove at h
  rw [if_neg (by omega),DeletesOnlyAged,outcome_bind] at h
  exact (h trivial).1

theorem deletesOnlyAged_lone {t : Time} (cuts : Cutoffs config now graceCutoff hardDeleteCutoff)
    (hfloor : config.snapshotMinRetainedBytes < 2^64-1)
    (ht : t ≤ graceCutoff ∨ t ≤ hardDeleteCutoff)
    (h : DeletesOnlyAged env cutoff (outcome (cleanupSnapshotStorageAt config [] now)) (lone t)) :
    t ≤ cutoff := by
  have hdelete : DeletesAged cutoff (.delete .blob (sampleSha256 [])) (lone t) → t ≤ cutoff :=
    fun hd => hd _ _ rfl (AList.lookup_insert _)
  unfold cleanupSnapshotStorageAt at h
  rw [DeletesOnlyAged,outcome_bind] at h
  have hpass := throughout_after (fun _ _ => trivial) (runs_collectCleanup env [] cuts (lone t)) h
  change Throughout _ _ _ (outcome (deleteCollected config
    (planFor [] graceCutoff hardDeleteCutoff (lone t)) >>= fun summary => pure (some summary)))
    (lone t) at hpass
  rw [outcome_bind,planFor_lone] at hpass
  replace hpass := throughout_left hpass
  unfold deleteCollected at hpass
  dsimp only at hpass
  rw [if_neg (by omega),outcome_bind] at hpass
  by_cases hold : t ≤ hardDeleteCutoff
  · have hfirst : [loneEntry t].filter (aged hardDeleteCutoff) = [loneEntry t] := by
      simp [aged,loneEntry,hold]
    rw [hfirst] at hpass
    exact hdelete (deletesAged_of_whileAbove env hfloor (throughout_left hpass))
  · have hgrace : t ≤ graceCutoff := ht.resolve_right hold
    have hfirst : [loneEntry t].filter (aged hardDeleteCutoff) = [] := by
      simp [aged,loneEntry,hold]
    have hsecond : [loneEntry t].filter (eligible graceCutoff hardDeleteCutoff) =
        [loneEntry t] := by
      simp [aged,eligible,loneEntry,hold,hgrace]
    rw [hfirst,hsecond] at hpass
    change Throughout _ _ _ (outcome (deleteWhileAbove _ [loneEntry t] _ _ >>= _)) _ at hpass
    rw [outcome_bind] at hpass
    exact hdelete (deletesAged_of_whileAbove env hfloor (throughout_left hpass))

theorem deletesOnlyAged_of_floor (active : List SnapshotReferenceSet) (s : StoredEntries)
    (cuts : Cutoffs config now graceCutoff hardDeleteCutoff)
    (hfloor : 2^64-1 ≤ config.snapshotMinRetainedBytes) :
    DeletesOnlyAged env cutoff (outcome (cleanupSnapshotStorageAt config active now)) s := by
  unfold cleanupSnapshotStorageAt
  rw [DeletesOnlyAged,outcome_bind]
  refine throughout_seq (deletesOnlyAged_collectCleanup env config active now)
    (after_collectCleanup cuts s) fun s' r hr => ?_
  cases r with
  | error f => trivial
  | ok plan =>
    cases hr.2 plan rfl
    have htotal : (planFor active graceCutoff hardDeleteCutoff s).totalRetainedBytes ≤ 2^64-1 :=
      retainedTotal_le _ _ (retainedTotal_le _ _ (Nat.zero_le _))
    change Throughout _ _ _ (outcome (deleteCollected config _ >>= _)) s'
    unfold deleteCollected
    dsimp only
    rw [if_pos (htotal.trans hfloor)]
    trivial

/-- Under validated settings a pass keeps to the grace window unless the window
is longer than 30 days and than the configured hard-delete window. -/
theorem grace_window_honoured_iff (config : ServerConfig) (now : Time)
    (hg : NoOverflow now config.validate.snapshotCacheGracePeriodHours)
    (hh : NoOverflow now config.validate.snapshotCacheHardDeleteHours) :
    HonoursGrace env config.validate now ↔
      config.snapshotCacheGracePeriodHours ≤ defaultSnapshotCacheHardDeleteHours ∨
      config.snapshotCacheGracePeriodHours ≤ config.snapshotCacheHardDeleteHours ∨
      2^64-1 ≤ config.snapshotMinRetainedBytes := by
  rw [← or_assoc,← validate_ordered_iff]
  constructor
  · intro h
    by_contra hno
    rw [not_or,not_le,not_le] at hno
    have ht := deletesOnlyAged_lone env ⟨hg,hh⟩ hno.2 (.inr le_rfl) (h [] (lone _))
    have hle := hoursAgo_le.mp ht
    omega
  · rintro (h | h) active s
    · refine deletesOnlyAged_cleanup env active ⟨hg,hh⟩ fun key m hm ht => ?_
      exact ht.elim id fun ht => ht.trans (hoursAgo_le.mpr h)
    · exact deletesOnlyAged_of_floor env active s ⟨hg,hh⟩ h

/-- The default settings keep to their grace window. -/
theorem grace_window_honoured_default : HonoursGrace plainCodecs ServerConfig.default.validate 0 :=
  (grace_window_honoured_iff plainCodecs .default 0 (by decide) (by decide)).mpr
    (.inl (by decide))

end

def longGrace : ServerConfig :=
  { ServerConfig.default with
    snapshotCacheGracePeriodHours := 1000
    snapshotCacheHardDeleteHours := 0
    snapshotMinRetainedBytes := 0 }

def recentBlob : StoredEntries :=
  (∅ : StoredEntries).insert (.blob,sampleSha256 [97]) ⟨sampleSha256 [97],1,-hours 800,none⟩

/-- A blob referenced 800 hours ago is deleted although the grace window is
1000 hours: validation has set the hard-delete window to 720 hours. -/
theorem blob_deleted_within_grace :
    longGrace.validate.snapshotCacheGracePeriodHours = 1000 ∧
    NoOverflow 0 longGrace.validate.snapshotCacheGracePeriodHours ∧
    NoOverflow 0 longGrace.validate.snapshotCacheHardDeleteHours ∧
    0-hours longGrace.validate.snapshotCacheGracePeriodHours < -hours 800 ∧
    Present recentBlob (.blob,sampleSha256 [97]) ∧
    ∃ s, Runs (storeSem plainCodecs)
        (outcome (cleanupSnapshotStorageAt longGrace.validate [] 0)) recentBlob s
        (.ok (some ⟨1,0,1⟩)) ∧
      ¬Present s (.blob,sampleSha256 [97]) := by
  refine ⟨by decide,by decide,by decide,by decide,by decide,?_⟩
  refine ⟨recentBlob.erase (.blob,sampleSha256 [97]),?_,by decide⟩
  exact runs_of_runWith (List.replicate 3 servedOracle) _ _ _ _ rfl

end Remerge.GraceWindow
