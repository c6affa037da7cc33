import Mathlib.Algebra.Ring.Nat
import Remerge.RetentionWindows

/-!
# What a cleanup pass deletes

The two tiers of a pass, each sorted and gone through with one running total, are
one order of the entries it may delete. Where sizes add up and nothing fails, the
pass deletes the shortest beginning of that order that brings the store down to the
floor, or all of it, and its summary counts just that.
-/

set_option autoImplicit false

namespace Remerge.CleanupPrefix
open StepProgram SnapshotTypes SnapshotStore SnapshotRuntime SnapshotCleanup SnapshotUse
open GraceWindow RetentionWindows

section

def keyOf (e : CleanupEntry) : Key := (e.kind,e.digest)

def bytesOf (entries : List CleanupEntry) : ℕ := (entries.map (·.retainedBytes)).sum

def deletedPrefix (floor : ℕ) : List CleanupEntry → ℕ → List CleanupEntry
  | [], _ => []
  | e::rest, total =>
    if total ≤ floor then [] else e::deletedPrefix floor rest (total-e.retainedBytes)

def eraseAll (deleted : List CleanupEntry) (s : StoredEntries) : StoredEntries :=
  deleted.foldl (fun s e => s.erase (keyOf e)) s

theorem deletedPrefix_of_le {floor total : ℕ} (h : total ≤ floor) (entries : List CleanupEntry) :
    deletedPrefix floor entries total = [] := by
  cases entries with
  | nil => rfl
  | cons e rest => exact if_pos h

theorem deletedPrefix_shortest (floor : ℕ) (entries : List CleanupEntry) (total : ℕ) :
    ∃ n ≤ entries.length, deletedPrefix floor entries total = entries.take n ∧
      (total-bytesOf (entries.take n) ≤ floor ∨ n = entries.length) ∧
      ∀ m < n, floor < total-bytesOf (entries.take m) := by
  induction entries generalizing total with
  | nil => exact ⟨0,le_rfl,rfl,.inr rfl,fun m hm => absurd hm (Nat.not_lt_zero m)⟩
  | cons e rest ih =>
    by_cases h : total ≤ floor
    · refine ⟨0,Nat.zero_le _,deletedPrefix_of_le h _,.inl ?_,
        fun m hm => absurd hm (Nat.not_lt_zero m)⟩
      simpa [bytesOf] using h
    · obtain ⟨n,hn,heq,hstop,hmin⟩ := ih (total-e.retainedBytes)
      have hbytes (m : ℕ) : total-bytesOf ((e::rest).take (m+1)) =
          total-e.retainedBytes-bytesOf (rest.take m) := by
        simp [bytesOf,Nat.sub_sub]
      refine ⟨n+1,by simpa using hn,by simp [deletedPrefix,h,heq],?_,?_⟩
      · rw [hbytes]
        exact hstop.imp_right fun hl => by simp [hl]
      · intro m hm
        cases m with
        | zero => simpa [bytesOf] using h
        | succ m =>
          rw [hbytes]
          exact hmin m (by omega)

theorem sweep_of_valid (floor : ℕ) {entries : List CleanupEntry}
    (hd : ∀ e ∈ entries, validDigest e.digest) (total : ℕ)
    (summary : SnapshotCleanupSummary) (s : StoredEntries) :
    ∃ total', sweep floor entries total summary s =
      (eraseAll (deletedPrefix floor entries total) s,
        some (total',(deletedPrefix floor entries total).foldl tallyOne summary)) := by
  induction entries generalizing total summary s with
  | nil => exact ⟨total,rfl⟩
  | cons e rest ih =>
    by_cases h : total ≤ floor
    · rw [sweep_of_le h,deletedPrefix_of_le h]
      exact ⟨total,rfl⟩
    · rw [sweep,if_neg h,if_neg (by simp [hd e List.mem_cons_self]),deletedPrefix,if_neg h]
      exact ih (fun e' he => hd e' (List.mem_cons_of_mem _ he)) _ _ _

end

section
variable {active : List SnapshotReferenceSet} {s : StoredEntries}

def ValidDigests (s : StoredEntries) : Prop :=
  ∀ key m, s.lookup key = some m → validDigest key.2

theorem validDigest_of_passOrder (hv : ValidDigests s) {cutoff : Time} {e : CleanupEntry}
    (h : e ∈ passOrder active cutoff s) : validDigest e.digest := by
  have hc := List.mem_of_mem_filter ((List.mem_insertionSort _).mp h)
  obtain ⟨m,hm,-⟩ := lookup_of_candidate active hc
  exact hv _ m hm

def deletedBy (config : ServerConfig) (active : List SnapshotReferenceSet) (cutoff : Time)
    (s : StoredEntries) : List CleanupEntry :=
  deletedPrefix config.snapshotMinRetainedBytes (passOrder active cutoff s) (passTotal s)

theorem runs_cleanup_valid {env : Codecs} {config : ServerConfig}
    {now graceCutoff hardDeleteCutoff : Time} {s' : StoredEntries}
    {r : Except Failure (Option SnapshotCleanupSummary)} (hv : ValidDigests s)
    (cuts : Cutoffs config now graceCutoff hardDeleteCutoff)
    (hr : Runs (servedStore env) (outcome (cleanupSnapshotStorageAt config active now)) s s' r) :
    s' = eraseAll (deletedBy config active (max graceCutoff hardDeleteCutoff) s) s ∧
      r = .ok (some ((deletedBy config active (max graceCutoff hardDeleteCutoff) s).foldl tallyOne
        emptySummary)) := by
  obtain ⟨hs,hsummary⟩ := (after_iff _ _ _).mp (after_cleanup active cuts s) s' r hr
  obtain ⟨total,hswept⟩ := sweep_of_valid config.snapshotMinRetainedBytes
    (fun e (he : e ∈ passOrder active (max graceCutoff hardDeleteCutoff) s) =>
      validDigest_of_passOrder hv he) (passTotal s) emptySummary s
  rw [swept,hswept] at hs hsummary
  cases r with
  | error f => cases hsummary
  | ok result => exact ⟨hs,congrArg _ (Option.some.inj hsummary)⟩

end

section

def storedBytes (s : StoredEntries) : ℕ :=
  (s.entries.map fun e => StoredMetadata.retainedBytes e.2).sum

variable {s : StoredEntries}

theorem storedBytes_erase {key : Key} {m : StoredMetadata} (h : s.lookup key = some m) :
    storedBytes (s.erase key)+StoredMetadata.retainedBytes m = storedBytes s := by
  have hmem : ⟨key,m⟩ ∈ s.entries := AList.mem_lookup_iff.mp h
  obtain ⟨m',l,l',hl,he,hr⟩ := List.exists_of_kerase (List.mem_keys_of_mem hmem)
  have hm' : s.lookup key = some m' := AList.mem_lookup_iff.mpr (by rw [he]; simp)
  have herase : (s.erase key).entries = l++l' := hr
  rw [h,Option.some.injEq] at hm'
  rw [storedBytes,storedBytes,herase,he,← hm']
  simp only [List.map_append,List.sum_append,List.map_cons,List.sum_cons]
  omega

variable {entries : List CleanupEntry}

theorem storedBytes_eraseAll
    (hn : (entries.map keyOf).Nodup)
    (hs : ∀ e ∈ entries, ∃ m, s.lookup (keyOf e) = some m ∧
      StoredMetadata.retainedBytes m = e.retainedBytes) :
    storedBytes (eraseAll entries s)+bytesOf entries = storedBytes s := by
  induction entries generalizing s with
  | nil => rfl
  | cons e entries ih =>
    rw [List.map_cons,List.nodup_cons] at hn
    obtain ⟨m,hm,hsize⟩ := hs e List.mem_cons_self
    have hrest : ∀ e' ∈ entries, ∃ m, (s.erase (keyOf e)).lookup (keyOf e') = some m ∧
        StoredMetadata.retainedBytes m = e'.retainedBytes := by
      intro e' he'
      have hne : keyOf e' ≠ keyOf e := fun hk => hn.1 (hk ▸ List.mem_map_of_mem he')
      rw [AList.lookup_erase_ne hne]
      exact hs e' (List.mem_cons_of_mem _ he')
    have herase := storedBytes_erase hm
    have htail := ih hn.2 hrest
    rw [eraseAll,List.foldl_cons]
    rw [eraseAll] at htail
    rw [bytesOf] at htail ⊢
    rw [List.map_cons,List.sum_cons]
    omega

theorem retainedTotal_eq {start : ℕ} {records : List (Digest × StoredMetadata)}
    (h : start+(records.map fun r => StoredMetadata.retainedBytes r.2).sum < 2^64) :
    retainedTotal start records =
      start+(records.map fun r => StoredMetadata.retainedBytes r.2).sum := by
  induction records generalizing start with
  | nil => rfl
  | cons record records ih =>
    rw [List.map_cons,List.sum_cons] at h ⊢
    have hfirst : saturatingAdd start (StoredMetadata.retainedBytes record.2) =
        start+StoredMetadata.retainedBytes record.2 := Nat.min_eq_left (by omega)
    change retainedTotal (saturatingAdd start _) records = _
    rw [hfirst,ih (by omega)]
    omega

theorem sum_listing (s : StoredEntries) :
    ((listing s .blob).map fun r => StoredMetadata.retainedBytes r.2).sum+
      ((listing s .tree).map fun r => StoredMetadata.retainedBytes r.2).sum = storedBytes s := by
  rw [listing,listing,storedBytes]
  induction s.entries with
  | nil => rfl
  | cons e entries ih =>
    obtain ⟨⟨kind,digest⟩,m⟩ := e
    cases kind <;> simp at ih ⊢ <;> omega

theorem passTotal_eq (h : storedBytes s < 2^64) : passTotal s = storedBytes s := by
  have hsum := sum_listing s
  have hblobs : retainedTotal 0 (listing s .blob) =
      0+((listing s .blob).map fun r => StoredMetadata.retainedBytes r.2).sum :=
    retainedTotal_eq (by omega)
  rw [passTotal,hblobs,retainedTotal_eq (by omega)]
  omega

theorem tally_eq {summary : SnapshotCleanupSummary}
    (h : summary.reclaimedBytes+bytesOf entries < 2^64) :
    entries.foldl tallyOne summary =
      ⟨summary.deletedBlobs+entries.countP (·.kind = .blob),
        summary.deletedTrees+entries.countP (·.kind = .tree),
        summary.reclaimedBytes+bytesOf entries⟩ := by
  induction entries generalizing summary with
  | nil => rfl
  | cons e entries ih =>
    rw [bytesOf,List.map_cons,List.sum_cons] at h
    have hadd : saturatingAdd summary.reclaimedBytes e.retainedBytes =
        summary.reclaimedBytes+e.retainedBytes := Nat.min_eq_left (by omega)
    rw [List.foldl_cons,ih (by rw [tallyOne,hadd,bytesOf]; cases e.kind <;> dsimp only <;> omega)]
    cases hk : e.kind <;>
      simp [tallyOne,hadd,hk,bytesOf,Nat.add_assoc,Nat.add_comm]

end

section
variable (active : List SnapshotReferenceSet) (cutoff : Time) (s : StoredEntries)

/-- Stored, referenced by no staged workorder and old enough. -/
def Deletable (e : CleanupEntry) : Prop :=
  ∃ m, s.lookup (keyOf e) = some m ∧ e = entryFor e.kind (e.digest,m) ∧
    (active.any fun references => references.has e.kind e.digest) = false ∧
    m.lastReferencedAt ≤ cutoff

variable {e : CleanupEntry}

theorem mem_candidates {kind : EntryKind} :
    e ∈ candidates active kind (listing s kind) ↔ e.kind = kind ∧
      ∃ m, s.lookup (keyOf e) = some m ∧ e = entryFor e.kind (e.digest,m) ∧
        (active.any fun references => references.has e.kind e.digest) = false := by
  simp only [candidates,List.mem_map,List.mem_filter,Bool.not_eq_true',mem_listing]
  constructor
  · rintro ⟨record,⟨hm,ha⟩,rfl⟩
    exact ⟨rfl,record.2,hm,rfl,ha⟩
  · rintro ⟨rfl,m,hm,he,ha⟩
    exact ⟨(e.digest,m),⟨hm,ha⟩,he.symm⟩

theorem mem_passOrder_iff : e ∈ passOrder active cutoff s ↔ Deletable active cutoff s e := by
  rw [passOrder,List.mem_insertionSort,List.mem_filter,storeCandidates,List.mem_append,
    mem_candidates,mem_candidates,aged,decide_eq_true_eq]
  constructor
  · rintro ⟨(⟨-,m,hm,he,ha⟩ | ⟨-,m,hm,he,ha⟩),hage⟩
    · exact ⟨m,hm,he,ha,by rw [he] at hage; exact hage⟩
    · exact ⟨m,hm,he,ha,by rw [he] at hage; exact hage⟩
  · rintro ⟨m,hm,he,ha,hage⟩
    refine ⟨?_,by rw [he]; exact hage⟩
    cases hk : e.kind with
    | blob => exact .inl ⟨rfl,m,hm,hk ▸ he,hk ▸ ha⟩
    | tree => exact .inr ⟨rfl,m,hm,hk ▸ he,hk ▸ ha⟩

theorem keys_listing (kind : EntryKind) :
    (listing s kind).map (fun r => (kind,r.1)) = s.entries.keys.filter (·.1 = kind) := by
  rw [listing]
  induction s.entries with
  | nil => rfl
  | cons e entries ih =>
    obtain ⟨⟨kind',digest⟩,m⟩ := e
    by_cases hk : kind' = kind <;> simp [hk,List.keys] at ih ⊢ <;> exact ih

theorem keys_candidates_sublist (kind : EntryKind) :
    ((candidates active kind (listing s kind)).map keyOf).Sublist
      (s.entries.keys.filter (·.1 = kind)) := by
  rw [← keys_listing,candidates,List.map_map]
  exact List.filter_sublist.map _

theorem nodup_passOrder : ((passOrder active cutoff s).map keyOf).Nodup := by
  have hkeys : s.entries.keys.Nodup := s.nodupKeys
  have hkind {kind : EntryKind} {key : Key}
      (h : key ∈ (candidates active kind (listing s kind)).map keyOf) : key.1 = kind := by
    have hm := (List.mem_filter.mp ((keys_candidates_sublist active s kind).subset h)).2
    simpa using hm
  have hall : ((storeCandidates active s).map keyOf).Nodup := by
    rw [storeCandidates,List.map_append]
    refine List.Nodup.append ((keys_candidates_sublist active s .blob).nodup (hkeys.filter _))
      ((keys_candidates_sublist active s .tree).nodup (hkeys.filter _)) ?_
    intro key hb ht
    have h := (hkind hb).symm.trans (hkind ht)
    cases h
  refine ((List.perm_insertionSort _ _).map keyOf).nodup_iff.mpr ?_
  exact (List.filter_sublist.map _).nodup hall

/-- The store and the summary after a pass that deletes, in some order from the
oldest on, just as many of the deletable entries as it must. -/
structure DeletesShortestPrefix (floor : ℕ) (s' : StoredEntries)
    (summary : SnapshotCleanupSummary) : Prop where
  shortest : ∃ (order : List CleanupEntry) (n : ℕ), order.Nodup ∧
    (∀ e, e ∈ order ↔ Deletable active cutoff s e) ∧ order.Pairwise byLastReferenced ∧
    n ≤ order.length ∧ s' = eraseAll (order.take n) s ∧
    (storedBytes s' ≤ floor ∨ n = order.length) ∧
    (∀ m < n, floor < storedBytes (eraseAll (order.take m) s)) ∧
    summary = ⟨(order.take n).countP (·.kind = .blob),(order.take n).countP (·.kind = .tree),
      bytesOf (order.take n)⟩
  spared : storedBytes s ≤ floor → s' = s

instance : Std.Total byLastReferenced := ⟨fun a b => le_total a.lastReferencedAt b.lastReferencedAt⟩

instance : IsTrans CleanupEntry byLastReferenced := ⟨fun _ _ _ hab hbc => le_trans hab hbc⟩

theorem deletesShortestPrefix_deletedBy {config : ServerConfig} (h : storedBytes s < 2^64) :
    DeletesShortestPrefix active cutoff s config.snapshotMinRetainedBytes
      (eraseAll (deletedBy config active cutoff s) s)
      ((deletedBy config active cutoff s).foldl tallyOne emptySummary) := by
  have hbytes (n : ℕ) : storedBytes (eraseAll ((passOrder active cutoff s).take n) s)+
      bytesOf ((passOrder active cutoff s).take n) = storedBytes s := by
    refine storedBytes_eraseAll ?_ fun e he => ?_
    · rw [List.map_take]
      exact (List.take_sublist _ _).nodup (nodup_passOrder active cutoff s)
    · obtain ⟨m,hm,heq,-⟩ := (mem_passOrder_iff active cutoff s).mp (List.mem_of_mem_take he)
      exact ⟨m,hm,by rw [heq]; rfl⟩
  obtain ⟨n,hn,heq,hstop,hmin⟩ := deletedPrefix_shortest config.snapshotMinRetainedBytes
    (passOrder active cutoff s) (passTotal s)
  rw [passTotal_eq h] at hstop hmin
  rw [deletedBy,heq]
  refine ⟨⟨passOrder active cutoff s,n,(nodup_passOrder active cutoff s).of_map,
    fun e => mem_passOrder_iff active cutoff s,List.pairwise_insertionSort _ _,hn,rfl,?_,?_,?_⟩,?_⟩
  · have hb := hbytes n
    exact hstop.imp_left fun hle => by omega
  · intro m hm
    have hb := hbytes m
    have hlt := hmin m hm
    omega
  · have hb := hbytes n
    rw [tally_eq (by simp only [emptySummary]; omega)]
    simp [emptySummary]
  · intro hle
    rw [← heq,passTotal_eq h,deletedPrefix_of_le hle]
    rfl

end

variable (env : Codecs)

/-- A pass that meets no error deletes the shortest beginning of the deletable
entries, from the oldest on, that brings the store down to the floor. -/
theorem cleanup_deletes_down_to_floor {config : ServerConfig}
    {active : List SnapshotReferenceSet} {now : Time} {s : StoredEntries}
    (hv : ValidDigests s) (hsize : storedBytes s < 2^64)
    (hg : NoOverflow now config.snapshotCacheGracePeriodHours)
    (hh : NoOverflow now config.snapshotCacheHardDeleteHours)
    (hle : config.snapshotCacheGracePeriodHours ≤ config.snapshotCacheHardDeleteHours) :
    ∃ s' summary,
      DeletesShortestPrefix active (now-hours config.snapshotCacheGracePeriodHours) s
        config.snapshotMinRetainedBytes s' summary ∧
      ∀ s'' r, Runs (servedStore env) (outcome (cleanupSnapshotStorageAt config active now))
        s s'' r ↔ s'' = s' ∧ r = .ok (some summary) := by
  have hcutoff : max (now-hours config.snapshotCacheGracePeriodHours)
      (now-hours config.snapshotCacheHardDeleteHours) =
        now-hours config.snapshotCacheGracePeriodHours := max_eq_left (hoursAgo_le.mpr hle)
  refine ⟨_,_,deletesShortestPrefix_deletedBy active _ s hsize,fun s'' r => ?_⟩
  rw [← hcutoff]
  constructor
  · exact runs_cleanup_valid hv ⟨hg,hh⟩
  · rintro ⟨rfl,rfl⟩
    have htotal : ∀ o s, ∃ w s' r, servedStore env o w s = some (s',r) :=
      fun o s => ⟨servedOracle,_,_,rfl⟩
    obtain ⟨s1,r1,hr⟩ := exists_runs htotal (outcome (cleanupSnapshotStorageAt config active now)) s
    obtain ⟨rfl,rfl⟩ := runs_cleanup_valid hv ⟨hg,hh⟩ hr
    exact hr

def twoByteFloor : ServerConfig := { ServerConfig.default with snapshotMinRetainedBytes := 2 }

/-- Two expired entries, of which one has to go, and a recent one. -/
def threeEntries : StoredEntries :=
  (recentBlob.insert (.tree,sampleSha256 [98]) ⟨sampleSha256 [98],1,-hours 900,none⟩).insert
    (.blob,sampleSha256 [97,98]) ⟨sampleSha256 [97,98],1,-hours 1,none⟩

theorem validDigests_threeEntries : ValidDigests threeEntries := by
  have hall : ∀ e ∈ threeEntries.entries, validDigest e.1.2 := by decide
  exact fun key m h => hall ⟨key,m⟩ (AList.mem_lookup_iff.mp h)

theorem older_tree_deleted_for_floor :
    Deletable [] (0-hours twoByteFloor.snapshotCacheGracePeriodHours) threeEntries
        ⟨.blob,sampleSha256 [97],-hours 800,1⟩ ∧
      DeletesShortestPrefix [] (0-hours twoByteFloor.snapshotCacheGracePeriodHours)
        threeEntries twoByteFloor.snapshotMinRetainedBytes
        (threeEntries.erase (.tree,sampleSha256 [98])) ⟨0,1,1⟩ := by
  refine ⟨⟨_,rfl,rfl,rfl,by decide⟩,?_⟩
  have hrun : Runs (servedStore plainCodecs) (outcome (cleanupSnapshotStorageAt twoByteFloor [] 0))
      threeEntries (threeEntries.erase (.tree,sampleSha256 [98])) (.ok (some ⟨0,1,1⟩)) :=
    runs_of_runWith (List.replicate 3 servedOracle) _ _ _ _ rfl
  have hwindow : NoOverflow 0 twoByteFloor.snapshotCacheGracePeriodHours := by decide
  obtain ⟨s',summary,hdeletes,hruns⟩ := cleanup_deletes_down_to_floor plainCodecs
    validDigests_threeEntries (by decide) hwindow (by decide) (by decide)
  obtain ⟨rfl,hr⟩ := (hruns _ _).mp hrun
  cases hr
  exact hdeletes

end Remerge.CleanupPrefix
