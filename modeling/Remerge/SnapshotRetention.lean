import Remerge.ServerDataFlow
import Remerge.AdmissionCap

/-!
# Retention of live snapshot data

A cleanup pass knows the workorders that have been staged, and it decides from
metadata it listed earlier. A pending workorder is protected by neither, and a
submit that finds a blob does not renew its last reference. Where every record
a live workorder names is young enough or staged when it is listed, and no
submit overlaps a pass, nothing live is deleted.
-/

set_option autoImplicit false

namespace Remerge.SnapshotRetention
open StepProgram Interleaving SnapshotTypes SnapshotStore SnapshotRuntime SnapshotCleanup
open SnapshotUse ServerState ServerOps ServerTasks ServerCore ServerDataFlow AdmissionCap Function

variable {env : Codecs} {config : ServerConfig} {w : ServerOracle} {s s' : Server}

def liveKeys (workorders : Table WorkorderId Workorder) : List Key :=
  (workorders.values.filter Workorder.isActive).flatMap fun w =>
    manifestKeys w.portageConfig.snapshotManifest

theorem mem_liveKeys {workorders : Table WorkorderId Workorder} {key : Key} :
    key ∈ liveKeys workorders ↔ ∃ id w, workorders.lookup id = some w ∧ w.isActive ∧
      key ∈ manifestKeys w.portageConfig.snapshotManifest := by
  simp only [liveKeys,List.mem_flatMap,List.mem_filter,AList.mem_values]
  constructor
  · rintro ⟨w,⟨⟨id,hl⟩,ha⟩,hk⟩
    exact ⟨id,w,hl,ha,hk⟩
  · rintro ⟨id,w,hl,ha,hk⟩
    exact ⟨w,⟨⟨id,hl⟩,ha⟩,hk⟩

/-- A submit and the deleting half of a cleanup pass are both in progress. -/
def submitDuringPass (kinds : ℕ → Option TaskKind) : Prop :=
  ∃ i j req active now,kinds i = some (.submit req) ∧ kinds j = some (.cleanupAt active now)

/-- Nothing is revived, no submit overlaps a pass, what a pass lists of live
data it spares, and an inserted workorder has no empty inline repository in
place of one its manifest describes. -/
def collectsSafely (config : ServerConfig) : ServerCondition := fun s kinds l =>
  revivesNone s kinds l ∧ ¬submitDuringPass kinds ∧ match l with
    | .act _ (.submit req) (.insertWorkorder _) _ => InlineConsistent req.portageConfig
    | .act _ (.cleanupAt active now) (.store (.listMetadata kind)) _ =>
      ∀ digest m, (kind,digest) ∈ liveKeys s.workorders → s.store.lookup (kind,digest) = some m →
        spared config active now kind (digest,m)
    | _ => True

section

def ActiveAmong (t t' : Table WorkorderId Workorder) : Prop :=
  ∀ id v', t'.lookup id = some v' → v'.isActive →
    ∃ v, t.lookup id = some v ∧ v.isActive ∧ v'.portageConfig = v.portageConfig

theorem ActiveAmong.refl (t : Table WorkorderId Workorder) : ActiveAmong t t :=
  fun _ v' h ha => ⟨v',h,ha,rfl⟩

variable {t t' : Table WorkorderId Workorder}

theorem ActiveAmong.live (h : ActiveAmong t t') {key : Key} (hl : key ∈ liveKeys t') :
    key ∈ liveKeys t := by
  obtain ⟨id,v',hv,ha,hk⟩ := mem_liveKeys.mp hl
  obtain ⟨v,hv,ha,he⟩ := h id v' hv ha
  exact mem_liveKeys.mpr ⟨id,v,hv,ha,he ▸ hk⟩

theorem activeAmong_insert {id : WorkorderId} {v v' : Workorder} (hv : t.lookup id = some v)
    (ha : v'.isActive → v.isActive) (hc : v'.portageConfig = v.portageConfig) :
    ActiveAmong t (t.insert id v') := by
  intro id' u hu hact
  rw [AList.lookup_insert_ite] at hu
  split at hu
  · next he =>
    cases hu
    exact ⟨v,he ▸ hv,ha hact,hc⟩
  · exact ⟨u,hu,hact,rfl⟩

theorem activeAmong_without (ids : List WorkorderId) (h : ActiveAmong t t') :
    ActiveAmong t (without ids t') := by
  intro id v hv ha
  rw [without,AList.lookup_keep] at hv
  exact h id v (Option.filter_eq_some_iff.mp hv).1 ha

theorem activeAmong_of_sem {o : ServerOp} {r : ServerRes o}
    (hs : serverSem env config o w s = some (s',r)) (hn : RevivesNone (core s) o)
    (hi : ∀ v, o ≠ .insertWorkorder v) : ActiveAmong s.workorders s'.workorders := by
  cases o with
  | insertWorkorder v => exact absurd rfl (hi v)
  | claim id =>
    cases of_exclusive hs
    unfold claimWorkorder
    split
    · next v hv =>
      split
      · next hp => exact activeAmong_insert hv (fun _ => by simp [Workorder.isActive,hp,
          WorkorderStatus.active]) rfl
      · exact .refl _
    · exact .refl _
  | setStatus id st =>
    cases of_exclusive hs
    intro id' u hu hact
    dsimp only at hu
    rw [AList.lookup_modify] at hu
    split at hu
    · next he =>
      obtain ⟨v,hv,rfl⟩ := Option.map_eq_some_iff.mp hu
      exact ⟨v,he ▸ hv,hn id st rfl hact v.status (StatusLifecycle.statusOf_of_lookup hv),rfl⟩
    · exact ⟨u,hu,hact,rfl⟩
  | cancel id =>
    cases of_exclusive hs
    unfold cancelStatus
    split
    · exact .refl _
    · next v hv =>
      split
      · exact activeAmong_insert hv (fun h => by simp [Workorder.isActive,
          WorkorderStatus.active] at h) rfl
      · exact .refl _
  | evict =>
    simp only [serverSem,Option.ite_none_right_eq_some] at hs
    obtain ⟨-,hs⟩ := hs
    split at hs
    · cases hs
      exact activeAmong_without _ (activeAmong_without _ (.refl _))
    · cases hs
      exact .refl _
  | _ => exact (frame_of_sem hs).workorders rfl ▸ .refl _

end

/-- Live data is stored, what a submit has found is still stored, and what a
pass has collected is not live. -/
structure Retained (s : Server) (g : Ghost TaskKind Seen) : Prop where
  live : ∀ key, key ∈ liveKeys s.workorders → Present s.store key
  found : ∀ i req q, g i = some (.submit req,q) → ∀ key ∈ q.entries, Present s.store key
  unused : ∀ i active now q, g i = some (.cleanupAt active now,q) →
    ∀ key ∈ q.entries, key ∉ liveKeys s.workorders

section
variable {g : Ghost TaskKind Seen} {i : ℕ} {k : TaskKind} {q : Seen}

theorem kinds_some (h : g i = some (k,q)) : g.kinds i = some k := by
  simp [Ghost.kinds,h]

theorem retained_fresh (h : Retained s g) (i : ℕ) (k : Option TaskKind) :
    Retained s (update g i (k.map (watch config).task)) := by
  have old : ∀ {a k' q}, update g i (k.map (watch config).task) a = some (k',q) →
      g a = some (k',q) ∨ q.entries = [] := by
    intro a k' q ha
    rcases update_some (r := g) ha with ⟨-,e⟩ | ⟨-,e⟩
    · obtain ⟨k1,-,e⟩ := Option.map_eq_some_iff.mp e
      cases e
      exact .inr rfl
    · exact .inl e
  refine ⟨h.live,fun a req q ha key hk => ?_,fun a active now q ha key hk => ?_⟩
  · rcases old ha with e | e
    · exact h.found a req q e key hk
    · rw [e] at hk
      cases hk
  · rcases old ha with e | e
    · exact h.unused a active now q e key hk
    · rw [e] at hk
      cases hk

theorem retained_spawn (h : Retained s g) (o : ServerOp) (j : ℕ) :
    Retained s ((watch config).spawn (serverSystem env config) o j g) := by
  unfold Discipline.spawn
  split
  · exact h
  · next k _ => exact retained_fresh h j (some k)

variable {o : StoreOp} {r : StoreRes o} {t : StoredEntries}

theorem keeps_present {a : ℕ} {req : SubmitRequest} (hi : g.kinds i = some k)
    (ha : g.kinds a = some (.submit req)) (hc : ¬submitDuringPass g.kinds)
    (allowed : storeAllows k q.entries o) (hs : storeSem env o w.toStore s.store = some (t,r))
    {key : Key} (h : Present s.store key) : Present t key := by
  refine present_storeSem o r key hs h fun hd => ?_
  cases k with
  | cleanupAt active now => exact hc ⟨a,i,req,active,now,ha,hi⟩
  | _ =>
    have hn : o.deletes = none := allowed
    rw [hn] at hd
    cases hd

theorem retained_store (h : Retained s g) (ht : g i = some (k,q))
    (allowed : storeAllows k q.entries o) (hs : storeSem env o w.toStore s.store = some (t,r))
    (hc : collectsSafely config s g.kinds (.act i k (.store o) r)) :
    Retained { s with store := t } (update g i (some (k,watchNext config k q (.store o) r))) := by
  refine ⟨fun key hl => ?_,fun a req p ha key hk => ?_,fun a active now p ha key hk hl => ?_⟩
  · refine present_storeSem o r key hs (h.live key hl) fun hd => ?_
    -- Only a pass deletes, and only what it has collected.
    cases k with
    | cleanupAt active now => exact h.unused i active now q ht key (allowed key hd) hl
    | _ =>
      have hn : o.deletes = none := allowed
      rw [hn] at hd
      cases hd
  · rcases update_some (r := g) ha with ⟨-,e⟩ | ⟨-,e⟩
    · cases e
      rcases List.mem_append.mp hk with hk | hk
      · exact present_of_reported hs (Option.mem_toList.mp hk)
      · exact keeps_present (kinds_some ht) (kinds_some ht) hc.2.1 allowed hs
          (h.found i req q ht key hk)
    · exact keeps_present (kinds_some ht) (kinds_some e) hc.2.1 allowed hs
        (h.found a req p e key hk)
  · rcases update_some (r := g) ha with ⟨-,e⟩ | ⟨-,e⟩
    · cases e
      rcases stored_of_collectedNext hs hk with hk | ⟨rfl,m,hm,hsp⟩
      · exact h.unused i active now q ht key hk hl
      · have hspared := hc.2.2 key.2 m hl hm
        rw [hsp] at hspared
        cases hspared
    · exact h.unused a active now p e key hk hl

theorem retained_insert {v : Workorder} {r : ServerRes (.insertWorkorder v)} (h : Retained s g)
    (ht : g i = some (k,q)) (allowed : insertAllows q.entries v k)
    (hc : collectsSafely config s g.kinds (.act i k (.insertWorkorder v) r)) :
    Retained { s with workorders := s.workorders.insert v.id v } g := by
  cases k with
  | submit req =>
    refine ⟨fun key hl => ?_,h.found,fun a active now p ha => ?_⟩
    · obtain ⟨id,u,hu,hact,hk⟩ := mem_liveKeys.mp hl
      dsimp only at hu
      rw [AList.lookup_insert_ite] at hu
      split at hu
      · cases hu
        exact h.found i req q ht key (allowed hc.2.2 key hk)
      · exact h.live key (mem_liveKeys.mpr ⟨id,u,hu,hact,hk⟩)
    · exact absurd ⟨i,a,req,active,now,kinds_some ht,kinds_some ha⟩ hc.2.1
  | _ => exact allowed.elim

theorem retained_other {q' : Seen} (h : Retained s g) (ht : g i = some (k,q))
    (hq : q'.entries = q.entries) (hst : s'.store = s.store)
    (hw : ActiveAmong s.workorders s'.workorders) :
    Retained s' (update g i (some (k,q'))) := by
  refine ⟨fun key hl => ?_,fun a req p ha key hk => ?_,fun a active now p ha key hk hl => ?_⟩
  · rw [hst]
    exact h.live key (hw.live hl)
  · rw [hst]
    rcases update_some (r := g) ha with ⟨-,e⟩ | ⟨-,e⟩
    · cases e
      exact h.found i req q ht key (hq ▸ hk)
    · exact h.found a req p e key hk
  · rcases update_some (r := g) ha with ⟨-,e⟩ | ⟨-,e⟩
    · cases e
      exact h.unused i active now q ht key (hq ▸ hk) (hw.live hl)
    · exact h.unused a active now p e key hk (hw.live hl)

theorem entries_watchNext (config : ServerConfig) (k : TaskKind) (q : Seen) (o : ServerOp)
    (r : ServerRes o) (h : ∀ p, o ≠ .store p) : (watchNext config k q o r).entries = q.entries := by
  cases o with
  | store p => exact absurd rfl (h p)
  | _ => rfl

theorem retained_step {l : ServerLabel} {g' : Ghost TaskKind Seen} (h : Retained s g)
    (hs : GhostStep (serverSystem env config) (watch config) s g l s' g')
    (hc : collectsSafely config s g.kinds l) : Retained s' g' := by
  cases hs with
  | start hk free => exact retained_fresh h _ (some _)
  | next ht ends => exact retained_fresh h _ _
  | act ht allowed hs free =>
    rename_i i j k q o r oracle
    refine retained_spawn ?_ _ _
    by_cases hp : ∃ p, o = .store p
    · obtain ⟨p,rfl⟩ := hp
      obtain ⟨⟨t,r'⟩,hsem,he⟩ := Option.map_eq_some_iff.mp hs
      cases he
      exact retained_store h ht allowed hsem hc
    · have hst : s'.store = s.store := (frame_of_sem hs).store fun p e => hp ⟨p,e⟩
      have hq := entries_watchNext config k q o r fun p e => hp ⟨p,e⟩
      by_cases hv : ∃ v, o = .insertWorkorder v
      · obtain ⟨v,rfl⟩ := hv
        have inserted := retained_insert h ht allowed hc
        simp only [serverSystem,serverSem,exclusive,Option.ite_none_right_eq_some] at hs
        cases hs.2
        exact retained_other inserted ht hq rfl (.refl _)
      · exact retained_other h ht hq hst (activeAmong_of_sem hs
          (revivesNone_of_condition hc.1) fun v e => hv ⟨v,e⟩)

end

/-- If the data of live workorders is stored when the server starts, then in
every run that collects safely each blob and tree which the manifest of a
Pending, Provisioning or Building workorder names is in the store. -/
theorem live_snapshot_data_stored {P0 P : ServerPool} {ls : List ServerLabel} {key : Key}
    (start : Started env config P0)
    (stored : ∀ key, key ∈ liveKeys P0.shared.workorders → Present P0.shared.store key)
    (run : Run (serverSystem env config) (collectsSafely config) P0 ls P)
    (live : key ∈ liveKeys P.shared.workorders) : Present P.shared.store key := by
  have begun : Retained P0.shared startSeen := by
    have unseen : ∀ {i k q}, startSeen i = some (k,q) → q.entries = [] := by
      intro i k q h
      obtain ⟨k',-,e⟩ := Option.map_eq_some_iff.mp h
      cases e
      rfl
    refine ⟨stored,fun i req q h key hk => ?_,fun i active now q h key hk => ?_⟩
    · rw [unseen h] at hk
      cases hk
    · rw [unseen h] at hk
      cases hk
  obtain ⟨⟨g,-,h⟩,-⟩ := run_invariant (watch_obeyed env config) Retained (fun _ => True)
    (fun s g l s' g' h hs hc => ⟨retained_step h hs hc,trivial⟩) run
    ⟨startSeen,by cases start; exact tracks_watch _ _ _,begun⟩
  exact h.live key live

def collectsSafelyCheck (config : ServerConfig) (n : ℕ) (s : Server)
    (kinds : ℕ → Option TaskKind) (l : ServerLabel) : Bool :=
  let among (p : TaskKind → Bool) := (List.range n).any fun i => (kinds i).any p
  revivesNoneCheck s kinds l &&
    !(among (fun | .submit _ => true | _ => false) &&
      among (fun | .cleanupAt _ _ => true | _ => false)) &&
    match l with
    | .act _ (.submit req) (.insertWorkorder _) _ => req.portageConfig.repoSnapshots.isEmpty
    | .act _ (.cleanupAt active now) (.store (.listMetadata kind)) _ =>
      (liveKeys s.workorders).all fun key => key.1 != kind ||
        (s.store.lookup key).all fun m => spared config active now kind (key.2,m)
    | _ => true

theorem collectsSafely_of_check {n : ℕ} (s : Server) (kinds : ℕ → Option TaskKind) (l : ServerLabel)
    (hn : ∀ i, n ≤ i → kinds i = none) (h : collectsSafelyCheck config n s kinds l) :
    collectsSafely config s kinds l := by
  simp only [collectsSafelyCheck,Bool.and_eq_true,Bool.not_eq_true',Bool.and_eq_false_iff] at h
  obtain ⟨⟨hr,ho⟩,hl⟩ := h
  have below : ∀ {i k}, kinds i = some k → i ∈ List.range n := by
    intro i k hk
    refine List.mem_range.mpr (Nat.lt_of_not_le fun hi => ?_)
    rw [hn i hi] at hk
    cases hk
  refine ⟨revivesNone_of_check s kinds l hr,?_,?_⟩
  · rintro ⟨i,j,req,active,now,hi,hj⟩
    rcases ho with ho | ho
    · have hf := List.any_eq_false.mp ho i (below hi)
      simp [hi] at hf
    · have hf := List.any_eq_false.mp ho j (below hj)
      simp [hj] at hf
  · split
    · intro repoName files old hf
      rw [Std.TreeMap.getElem?_of_isEmpty hl] at hf
      cases hf
    · next active now kind _ =>
      intro digest m hk hm
      have hs := List.all_eq_true.mp hl _ hk
      simpa [hm] using hs
    · trivial

def days (n : ℕ) : Time := n*24*3600*1000000000

def actsAt (now : Time) (n i j : ℕ) (id : Uuid) : List (Move TaskKind ServerOracle) :=
  List.replicate n (.act i j { time := now, uuid := id })

def noFloor : ServerConfig := { ServerConfig.default with snapshotMinRetainedBytes := 0 }

def distfileRequest : SubmitRequest :=
  { sampleRequest "c2" with
    portageConfig := { PortageConfig.default with
      snapshotManifest := { SnapshotManifest.default with
        distfiles := (∅ : BTreeMap SnapshotEntry).insert "a" ⟨sampleSha256 [97],1,0⟩ } } }

def uploadMoves (now : Time) (bytes : Bytes) : List (Move TaskKind ServerOracle) :=
  [.start 3 (.upload (sampleSha256 bytes) bytes)] ++ actsAt now 1 3 9 "" ++ [.next 3]

def failedBuildMoves : List (Move TaskKind ServerOracle) :=
  [.start 3 (.submit (sampleRequest "c1"))] ++ acts 16 3 9 "w1" ++ [.next 3] ++
    acts 7 0 4 "w1" ++ acts 2 4 9 "w1" ++
    [.act 4 9 { flag := true },.act 4 9 { error := some "no space left" }] ++ acts 16 4 5 "w1"

def lateCleanupMoves : List (Move TaskKind ServerOracle) :=
  [.start 3 (.submit distfileRequest)] ++ actsAt (days 39) 17 3 9 "w2" ++ [.next 3] ++
    actsAt (days 40) 2 5 9 "" ++ [.next 5] ++ acts 3 5 9 ""

/-- The pass deletes an old blob and keeps the one the pending workorder names. -/
theorem fresh_upload_survives_cleanup :
    ∃ ls P, Run (serverSystem plainCodecs noFloor) (collectsSafely noFloor)
        (freshPool plainCodecs noFloor) ls P ∧
      ¬Present P.shared.store (.blob,sampleSha256 [98]) ∧
      (.blob,sampleSha256 [97]) ∈ liveKeys P.shared.workorders ∧
      Present P.shared.store (.blob,sampleSha256 [97]) := by
  have hp : (play (serverSystem plainCodecs noFloor) (collectsSafelyCheck noFloor 10)
      (uploadMoves 0 [98] ++ failedBuildMoves ++ uploadMoves (days 39) [97] ++ lateCleanupMoves)
      (freshPool plainCodecs noFloor)).any
        (fun r => !decide (Present r.2.shared.store (.blob,sampleSha256 [98])) &&
          decide ((.blob,sampleSha256 [97]) ∈ liveKeys r.2.shared.workorders)) := by
    decide +kernel
  obtain ⟨⟨ls,P⟩,hplay,h⟩ := (Option.any_eq_true _ _).mp hp
  simp only [Bool.and_eq_true,Bool.not_eq_true',decide_eq_false_iff_not,decide_eq_true_eq] at h
  have fresh : ∀ i, 10 ≤ i → (freshPool plainCodecs noFloor).tasks i = none
    | i+10, _ => rfl
  have run := run_of_play_below collectsSafely_of_check _ (by decide) fresh hplay
  exact ⟨ls,P,run,h.1,h.2,live_snapshot_data_stored (started_fresh _ _)
    (fun key hk => by cases hk) run h.2⟩

/-- A pass under validated settings deletes the blob of a pending workorder:
the submit has found it and has not renewed its last reference. -/
theorem pending_workorder_loses_blob :
    ServerConfig.validate noFloor = noFloor ∧
    ∃ ls P, Run (serverSystem plainCodecs noFloor) unrestricted
        (freshPool plainCodecs noFloor) ls P ∧
      P.shared.statusOf "w2" = some .pending ∧
      (.blob,sampleSha256 [97]) ∈ liveKeys P.shared.workorders ∧
      ¬Present P.shared.store (.blob,sampleSha256 [97]) := by
  refine ⟨by decide,?_⟩
  obtain ⟨ls,P,run,h⟩ := exists_run_of_play (serverSystem plainCodecs noFloor)
    anyStep_unrestricted (uploadMoves 0 [97] ++ failedBuildMoves ++ lateCleanupMoves)
    (freshPool plainCodecs noFloor)
    (fun _ P => P.shared.statusOf "w2" == some .pending &&
      (decide ((.blob,sampleSha256 [97]) ∈ liveKeys P.shared.workorders) &&
        !decide (Present P.shared.store (.blob,sampleSha256 [97])))) (by decide +kernel)
  simp only [Bool.and_eq_true,beq_iff_eq,Bool.not_eq_true',decide_eq_false_iff_not,
    decide_eq_true_eq] at h
  exact ⟨ls,P,run,h⟩

end Remerge.SnapshotRetention
