import Mathlib.Data.Finset.Card
import Remerge.RetentionWindows

/-!
# One eviction pass

What a pass removes, as a specification over the workorder map: every ended
workorder from before the cutoff and, while the map is over a positive cap, the
ended ones with the oldest time stamps. The two phases of `evict_workorders`
meet it together, and every map that is keyed by workorders loses the same
entries. A cap of zero bounds nothing.
-/

set_option autoImplicit false

namespace Remerge.EvictionPass
open SnapshotTypes SnapshotStore SnapshotCleanup ServerState ServerOps ServerCore SortedPrefix
open GraceWindow RetentionWindows

def past (cutoff : Time) (v : Workorder) : Bool := v.status.terminal && v.updatedAt < cutoff

def recent (cutoff : Time) (v : Workorder) : Bool := v.status.terminal && cutoff ≤ v.updatedAt

def unended (v : Workorder) : Bool := !v.status.terminal

/-- The entries over a positive cap once those from before the cutoff are gone. -/
def overflow (cap : ℕ) (cutoff : Time) (t : Table WorkorderId Workorder) : ℕ :=
  if 0 < cap then t.entries.length-t.count (past cutoff)-cap else 0

/-- The identifiers that a pass may remove. -/
structure Selects (cap : ℕ) (cutoff : Time) (t : Table WorkorderId Workorder)
    (gone : Finset WorkorderId) : Prop where
  terminal : ∀ id ∈ gone, ∃ v, t.lookup id = some v ∧ v.status.terminal
  stale : ∀ id v, t.lookup id = some v → past cutoff v → id ∈ gone
  number : gone.card = t.count (past cutoff)+min (overflow cap cutoff t) (t.count (recent cutoff))
  oldest : ∀ id ∈ gone, ∀ v, t.lookup id = some v → recent cutoff v →
    ∀ id' ∉ gone, ∀ v', t.lookup id' = some v' → recent cutoff v' → v.updatedAt ≤ v'.updatedAt

/-- Exactly these entries are gone, and the others are as they were. -/
def Loses {ν : Type} (gone : Finset WorkorderId) (t t' : Table WorkorderId ν) : Prop :=
  ∀ id, t'.lookup id = if id ∈ gone then none else t.lookup id

structure EvictsExactly (cap : ℕ) (cutoff : Time) (s s' : Server) (gone : Finset WorkorderId) :
    Prop where
  selects : Selects cap cutoff s.workorders gone
  workorders : Loses gone s.workorders s'.workorders
  results : Loses gone s.results s'.results
  progressTxs : Loses gone s.progressTxs s'.progressTxs
  rawOutputTxs : Loses gone s.rawOutputTxs s'.rawOutputTxs
  stdinTxs : Loses gone s.stdinTxs s'.stdinTxs
  containerIds : Loses gone s.containerIds s'.containerIds
  bounded : 0 < cap → s'.workorders.entries.length ≤ max cap (s'.workorders.count unended)

section
variable (t : Table WorkorderId Workorder) (cutoff : Time) (cap : ℕ)

instance : Std.Total byUpdatedAt := ⟨fun a b => le_total a.2 b.2⟩

instance : IsTrans (WorkorderId × Time) byUpdatedAt := ⟨fun _ _ _ hab hbc => le_trans hab hbc⟩

theorem length_staleIds : (staleIds cutoff t).length = t.count (past cutoff) := by
  rw [staleIds,List.length_map,AList.count,List.countP_eq_length_filter]
  rfl

theorem nodup_ended : ((ended t).map (·.1)).Nodup := by
  rw [ended,List.map_map]
  exact t.keys_nodup.sublist (List.filter_sublist.map _)

theorem nodup_excessIds : (excessIds cap t).Nodup := by
  unfold excessIds
  split
  · have hperm := (List.perm_insertionSort byUpdatedAt (ended t)).map (·.1)
    exact (hperm.nodup_iff.mpr (nodup_ended t)).sublist ((List.take_sublist _ _).map _)
  · exact List.nodup_nil

theorem length_excessIds : (excessIds cap t).length =
    if 0 < cap then min (t.entries.length-cap) (ended t).length else 0 := by
  unfold excessIds
  by_cases hcap : 0 < cap
  · rw [if_pos hcap]
    split
    · rw [List.length_map,List.length_take,List.length_insertionSort]
      rfl
    · next h =>
      have hle : t.entries.length ≤ cap := not_lt.mp fun hlt => h ⟨hcap,hlt⟩
      simp [Nat.sub_eq_zero_of_le hle]
  · simp [hcap]

theorem length_ended : (ended t).length = t.count fun v => v.status.terminal := by
  rw [ended,List.length_map,AList.count,List.countP_eq_length_filter]

theorem length_split : t.entries.length = (ended t).length+t.count unended := by
  rw [length_ended,AList.count,AList.count,
    List.length_eq_countP_add_countP fun e : Sigma fun _ : WorkorderId => Workorder =>
      e.2.status.terminal]
  congr 2
  funext e
  simp [unended]

theorem length_after_stale :
    (kept cutoff t).entries.length+t.count (past cutoff) = t.entries.length := by
  rw [← length_staleIds]
  exact length_kept cutoff t

theorem length_ended_kept : (ended (kept cutoff t)).length = t.count (recent cutoff) := by
  rw [ended_kept,ended,List.filter_map,List.length_map,List.filter_filter,AList.count,
    List.countP_eq_length_filter]
  congr 1
  apply List.filter_congr
  intro e _
  by_cases h : e.2.updatedAt < cutoff
  · simp [before,recent,h]
  · simp [before,recent,h,not_lt.mp h]

end

section
variable (cap : ℕ) (cutoff : Time) (t : Table WorkorderId Workorder)

def goneIds : List WorkorderId := staleIds cutoff t++excessIds cap (kept cutoff t)

variable {cap cutoff t} {id : WorkorderId} {v : Workorder}

theorem mem_staleIds_iff (h : t.lookup id = some v) : id ∈ staleIds cutoff t ↔ past cutoff v := by
  rw [mem_staleIds cutoff t (e := ⟨id,v⟩) (AList.mem_lookup_iff.mp h)]
  simp [past]

theorem lookup_kept :
    (kept cutoff t).lookup id = some v ↔ t.lookup id = some v ∧ past cutoff v = false := by
  rw [kept,lookup_without]
  constructor
  · intro h
    split at h
    · cases h
    · next hn =>
      exact ⟨h,Bool.eq_false_iff.mpr fun hp => hn ((mem_staleIds_iff h).mpr hp)⟩
  · rintro ⟨h,hp⟩
    rw [if_neg fun hs => by simp [(mem_staleIds_iff h).mp hs] at hp]
    exact h

theorem not_stale_of_excess (h : id ∈ excessIds cap (kept cutoff t)) : id ∉ staleIds cutoff t := by
  obtain ⟨v,hv,-⟩ := excessIds_terminal cap _ id h
  obtain ⟨hl,hp⟩ := lookup_kept.mp hv
  intro hs
  rw [(mem_staleIds_iff hl).mp hs] at hp
  cases hp

theorem nodup_goneIds : (goneIds cap cutoff t).Nodup := by
  refine List.nodup_append.mpr ⟨nodup_staleIds cutoff t,nodup_excessIds _ cap,?_⟩
  rintro id hs _ he rfl
  exact not_stale_of_excess he hs

theorem terminal_of_gone (h : id ∈ goneIds cap cutoff t) :
    ∃ v, t.lookup id = some v ∧ v.status.terminal := by
  rcases List.mem_append.mp h with hs | he
  · exact staleIds_terminal cutoff t id hs
  · obtain ⟨v,hv,ht⟩ := excessIds_terminal cap _ id he
    exact ⟨v,(lookup_kept.mp hv).1,ht⟩

theorem length_goneIds : (goneIds cap cutoff t).length =
    t.count (past cutoff)+min (overflow cap cutoff t) (t.count (recent cutoff)) := by
  have hkept := length_after_stale t cutoff
  rw [goneIds,List.length_append,length_staleIds,length_excessIds,length_ended_kept,overflow]
  split
  · congr 2
    omega
  · simp

theorem recent_not_past (h : recent cutoff v) : v.status.terminal ∧ past cutoff v = false := by
  simp only [recent,Bool.and_eq_true,decide_eq_true_eq] at h
  exact ⟨h.1,by simp [past,h.2]⟩

theorem oldest_excess {id' : WorkorderId} {v' : Workorder} (h : id ∈ excessIds cap t)
    (hv : t.lookup id = some v) (h' : id' ∉ excessIds cap t) (hv' : t.lookup id' = some v')
    (ht' : v'.status.terminal) : v.updatedAt ≤ v'.updatedAt := by
  unfold excessIds at h h'
  split at h
  · next hcap =>
    rw [if_pos hcap] at h'
    obtain ⟨⟨id0,at_⟩,hx,rfl⟩ := List.mem_map.mp h
    have hx' : (id0,at_) ∈ ((ended t).insertionSort byUpdatedAt).take (t.entries.length-cap) := hx
    -- The stamp that was sorted is that of the entry in the map.
    have hm := (List.mem_insertionSort byUpdatedAt).mp (List.mem_of_mem_take hx')
    obtain ⟨e,he,heq⟩ := List.mem_map.mp hm
    cases heq
    have hsame : t.lookup e.1 = some e.2 := AList.mem_lookup_iff.mpr (List.mem_filter.mp he).1
    rw [hv] at hsame
    cases hsame
    have hle : byUpdatedAt (e.1,e.2.updatedAt) (id',v'.updatedAt) :=
      before_of_mem_take hx'
        (List.mem_map.mpr ⟨⟨id',v'⟩,List.mem_filter.mpr ⟨AList.mem_lookup_iff.mp hv',ht'⟩,rfl⟩)
        fun hy => h' (List.mem_map.mpr ⟨(id',v'.updatedAt),hy,rfl⟩)
    exact hle
  · cases h

theorem selects_goneIds : Selects cap cutoff t (goneIds cap cutoff t).toFinset where
  terminal id h := terminal_of_gone (List.mem_toFinset.mp h)
  stale id v hv hp :=
    List.mem_toFinset.mpr (List.mem_append_left _ ((mem_staleIds_iff hv).mpr hp))
  number := by rw [List.toFinset_card_of_nodup nodup_goneIds,length_goneIds]
  oldest id h v hv hr id' h' v' hv' hr' := by
    obtain ⟨-,hp⟩ := recent_not_past hr
    obtain ⟨ht',hp'⟩ := recent_not_past hr'
    rw [List.mem_toFinset,goneIds,List.mem_append] at h h'
    have hexcess : id ∈ excessIds cap (kept cutoff t) := by
      refine h.resolve_left fun hs => ?_
      rw [(mem_staleIds_iff hv).mp hs] at hp
      cases hp
    exact oldest_excess hexcess (lookup_kept.mpr ⟨hv,hp⟩) (fun he => h' (.inr he))
      (lookup_kept.mpr ⟨hv',hp'⟩) ht'

end

variable (config : ServerConfig) (cutoff : Time) (s : Server)

theorem loses_twice {ν : Type} (ids ids' : List WorkorderId) (t : Table WorkorderId ν) :
    Loses (ids++ids').toFinset t (without ids' (without ids t)) := by
  intro id
  rw [lookup_without,lookup_without]
  by_cases h : id ∈ ids <;> by_cases h' : id ∈ ids' <;> simp [h,h']

theorem evicted_workorders : (evictWorkorders config cutoff s).1.workorders =
    without (excessIds config.maxRetainedWorkorders (kept cutoff s.workorders))
      (kept cutoff s.workorders) := rfl

theorem length_evicted :
    (evictWorkorders config cutoff s).1.workorders.entries.length+
      (goneIds config.maxRetainedWorkorders cutoff s.workorders).length =
        s.workorders.entries.length := by
  have hstale := length_after_stale s.workorders cutoff
  have hexcess := length_without (kept cutoff s.workorders)
    (nodup_excessIds (kept cutoff s.workorders) config.maxRetainedWorkorders) fun id h => by
      obtain ⟨v,hv,-⟩ := excessIds_terminal config.maxRetainedWorkorders _ id h
      simp [hv]
  rw [evicted_workorders,goneIds,List.length_append,length_staleIds]
  omega

theorem count_unended :
    (evictWorkorders config cutoff s).1.workorders.count unended = s.workorders.count unended := by
  refine AList.count_congr fun id => ?_
  have hl : (evictWorkorders config cutoff s).1.workorders.lookup id =
      if id ∈ (goneIds config.maxRetainedWorkorders cutoff s.workorders).toFinset then none
      else s.workorders.lookup id := loses_twice _ _ _ id
  unfold AList.share
  rw [hl]
  by_cases h : id ∈ goneIds config.maxRetainedWorkorders cutoff s.workorders
  · obtain ⟨v,hv,ht⟩ := terminal_of_gone h
    rw [if_pos (List.mem_toFinset.mpr h)]
    simp [hv,unended,ht]
  · rw [if_neg fun hm => h (List.mem_toFinset.mp hm)]

theorem evicted_bounded (hcap : 0 < config.maxRetainedWorkorders) :
    (evictWorkorders config cutoff s).1.workorders.entries.length ≤
      max config.maxRetainedWorkorders
        ((evictWorkorders config cutoff s).1.workorders.count unended) := by
  have hlen := length_evicted config cutoff s
  rw [length_goneIds,overflow,if_pos hcap] at hlen
  have hall := length_split s.workorders
  have hended := length_ended_kept s.workorders cutoff
  have hkept := length_after_stale s.workorders cutoff
  have hsplit := length_split (kept cutoff s.workorders)
  have hun : (kept cutoff s.workorders).count unended ≤ s.workorders.count unended :=
    AList.count_keep_le _ _ _
  rw [count_unended]
  omega

theorem evictsExactly_evictWorkorders :
    EvictsExactly config.maxRetainedWorkorders cutoff s (evictWorkorders config cutoff s).1
      (goneIds config.maxRetainedWorkorders cutoff s.workorders).toFinset where
  selects := selects_goneIds
  workorders := loses_twice _ _ _
  results := loses_twice _ _ _
  progressTxs := loses_twice _ _ _
  rawOutputTxs := loses_twice _ _ _
  stdinTxs := loses_twice _ _ _
  containerIds := loses_twice _ _ _
  bounded := evicted_bounded config cutoff s

/-- One eviction pass removes exactly what the specification selects, from all
six maps, and returns how many workorders that are. -/
theorem evict_pass_exact (env : Codecs) (w : ServerOracle)
    (hr : NoOverflow w.time config.retentionHours) (hw : s.workorderReaders = 0)
    (hc : s.containerReaders = 0) :
    ∃ s' gone, serverSem env config .evict w s = some (s',some gone.card) ∧
      EvictsExactly config.maxRetainedWorkorders (w.time-hours config.retentionHours) s s' gone := by
  refine ⟨_,_,?_,evictsExactly_evictWorkorders config _ s⟩
  unfold NoOverflow at hr
  simp only [serverSem,hw,hc,hr,and_self,if_true]
  rw [List.toFinset_card_of_nodup nodup_goneIds,goneIds,List.length_append]
  rfl

def smallCap : ServerConfig := { ServerConfig.default with maxRetainedWorkorders := 2 }

/-- One workorder that is too old, two recent ones and one that has not ended. -/
def fourWorkorders : Persisted where
  workorders := some (((((∅ : Table WorkorderId Workorder).insert "w1" (endedAt (-hours 100))).insert
    "w2" (endedAt (-2))).insert "w3" (endedAt (-1))).insert "w4"
      { endedAt 0 with status := .pending })
  results := none
  clients := none

/-- The old one goes for its age and the older of the recent ones for the cap. -/
theorem four_workorders_pass_exact :
    ∃ s' gone, serverSem plainCodecs smallCap .evict {} (boot smallCap 0 ∅ fourWorkorders []) =
        some (s',some 2) ∧
      EvictsExactly smallCap.maxRetainedWorkorders (0-hours smallCap.retentionHours)
        (boot smallCap 0 ∅ fourWorkorders []) s' gone ∧
      s'.statusOf "w2" = none ∧ s'.statusOf "w3" = some .completed := by
  obtain ⟨s',gone,hs,hexact⟩ := evict_pass_exact smallCap (boot smallCap 0 ∅ fourWorkorders [])
    plainCodecs {} (by decide) rfl rfl
  have hleft : (serverSem plainCodecs smallCap .evict {}
      (boot smallCap 0 ∅ fourWorkorders [])).any (fun r => r.2 == some 2 &&
        (r.1.statusOf "w2" == none && r.1.statusOf "w3" == some .completed)) := by decide
  rw [hs] at hleft
  simp only [Option.any_some,Bool.and_eq_true,beq_iff_eq] at hleft
  rw [hleft.1] at hs
  exact ⟨s',gone,hs,hexact,hleft.2⟩

def uncapped : ServerConfig := { ServerConfig.default with maxRetainedWorkorders := 0 }

/-- Without a cap the ended workorder stays, and the map is larger than both
the cap and the number of workorders that have not ended. -/
theorem uncapped_map_not_bounded :
    NoOverflow 0 uncapped.retentionHours ∧
    ∃ s', serverSem plainCodecs uncapped .evict {} (boot uncapped 0 ∅ justEnded []) =
        some (s',some 0) ∧
      ¬ s'.workorders.entries.length ≤
        max uncapped.maxRetainedWorkorders (s'.workorders.count unended) :=
  ⟨by decide,_,rfl,by decide⟩

end Remerge.EvictionPass
