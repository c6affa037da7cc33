import Remerge.EvictionPass
import Remerge.SnapshotRetention

/-!
# From when a finished workorder is kept

A recorder with a clock that does not run backwards notes when each workorder
enters a terminal status, and what every eviction pass finds and leaves. A
status set by a processor carries the time it was set at. A cancel leaves the
time stamp alone, so a cancelled workorder is as old as its last transition
before the cancel, and a pass soon after the cancel may take it at once.
-/

set_option autoImplicit false

namespace Remerge.RetentionClock
open StepProgram Interleaving RecordedRuns SnapshotTypes SnapshotStore SnapshotCleanup ServerState
open ServerOps ServerTasks ServerPhases ServerCore GraceWindow ServerDataFlow RetentionWindows
open EvictionPass

/-- What an eviction pass found and left, and when each workorder had ended. -/
structure Pass where
  now : Time
  found : Table WorkorderId Workorder
  left : Table WorkorderId Workorder
  ended : WorkorderId → Option Time

structure Watch where
  clock : Time
  ended : WorkorderId → Option Time
  passes : List Pass

def entersEnd (t t' : Table WorkorderId Workorder) (id : WorkorderId) : Bool :=
  match t'.lookup id with
  | some v => v.status.terminal && (t.lookup id).map (·.status) != some v.status
  | none => false

def Watch.note (o : ServerOp) (w : ServerOracle) (s s' : Server) (x : Watch) : Watch where
  clock := w.time
  ended id := if entersEnd s.workorders s'.workorders id then some w.time else x.ended id
  passes := match o with
    | .evict => ⟨w.time,s.workorders,s'.workorders,x.ended⟩::x.passes
    | _ => x.passes

def watch : Recorder ServerOp Server ServerOracle Watch where
  admits w x := x.clock ≤ w.time
  note := Watch.note

def timedSystem (env : Codecs) (config : ServerConfig) :
    System TaskKind ServerOp ServerRes (Server × Watch) ServerOracle :=
  recorded (serverSystem env config) watch

abbrev TimedPool : Type := Pool TaskKind ServerOp ServerRes (Server × Watch)

section
variable (config : ServerConfig) (p : Pass)

/-- Nothing was evicted within the retention time of its end. -/
def Honoured : Prop :=
  ∀ id v, p.found.lookup id = some v → p.left.lookup id = none →
    ∃ e, p.ended id = some e ∧ hours config.retentionHours ≤ p.now-e

def StillRetained (id : WorkorderId) : Prop :=
  ∃ e, p.ended id = some e ∧ p.now-e < hours config.retentionHours

/-- What a pass must not find: a workorder cancelled within the retention time
whose last transition before that is older, or, where the retention time does
not fit, one that completed or failed within it. -/
structure Clear : Prop where
  cancelled : ∀ cutoff id v, hoursBefore p.now config.retentionHours = some cutoff →
    p.found.lookup id = some v → v.status = .cancelled → StillRetained config p id →
    cutoff ≤ v.updatedAt
  finished : ∀ id v, hoursBefore p.now config.retentionHours ≠ none →
    ¬ NoOverflow p.now config.retentionHours → p.found.lookup id = some v →
    v.status.terminal → v.status ≠ .cancelled → ¬ StillRetained config p id

end

section

def Recorded (t : Table WorkorderId Workorder) (clock : Time) (ended : WorkorderId → Option Time) :
    Prop :=
  ∀ id v, t.lookup id = some v → v.status.terminal →
    ∃ e, ended id = some e ∧ (v.status ≠ .cancelled → e ≤ v.updatedAt ∧ v.updatedAt ≤ clock)

variable {env : Codecs} {config : ServerConfig} {w : ServerOracle} {s s' : Server}
  {id : WorkorderId} {v : Workorder} {k : TaskKind} {q : Phase} {o : ServerOp} {r : ServerRes o}
  {x : Watch}

theorem lookup_insert_cases {t : Table WorkorderId Workorder} {wid : WorkorderId} {u : Workorder}
    (h : (t.insert wid u).lookup id = some v) : t.lookup id = some v ∨ v = u := by
  rw [AList.lookup_insert_ite] at h
  split at h
  · exact .inr (Option.some.inj h).symm
  · exact .inl h

theorem entry_of_sem (ha : Allowed config k q o) (hs : serverSem env config o w s = some (s',r))
    (hv : s'.workorders.lookup id = some v) :
    s.workorders.lookup id = some v ∨ v.status.terminal = false ∨ v.updatedAt = w.time ∨
      v.status = .cancelled := by
  cases o with
  | insertWorkorder wo =>
    cases of_exclusive hs
    rcases lookup_insert_cases hv with hv | rfl
    · exact .inl hv
    · cases ha with
      | plain h => cases h
      | insert _ hp => exact .inr (.inl (by rw [hp]; rfl))
  | claim wid =>
    cases of_exclusive hs
    change (claimWorkorder w.time wid s.workorders).1.lookup id = some v at hv
    unfold claimWorkorder at hv
    split at hv
    · split at hv
      · exact (lookup_insert_cases hv).elim .inl fun h => .inr (.inr (.inl (h ▸ rfl)))
      · exact .inl hv
    · exact .inl hv
  | setStatus wid st =>
    cases of_exclusive hs
    change (s.workorders.modify wid _).lookup id = some v at hv
    rw [AList.lookup_modify] at hv
    split at hv
    · obtain ⟨u,-,rfl⟩ := Option.map_eq_some_iff.mp hv
      exact .inr (.inr (.inl rfl))
    · exact .inl hv
  | cancel wid =>
    cases of_exclusive hs
    change (cancelStatus wid s.workorders).1.lookup id = some v at hv
    unfold cancelStatus at hv
    split at hv
    · exact .inl hv
    · split at hv
      · exact (lookup_insert_cases hv).elim .inl fun h => .inr (.inr (.inr (h ▸ rfl)))
      · exact .inl hv
  | evict =>
    simp only [serverSem,Option.ite_none_right_eq_some] at hs
    obtain ⟨-,hs⟩ := hs
    split at hs
    · cases hs
      rcases lookup_evicted _ id with he | ⟨he,-⟩
      · exact .inl (he ▸ hv)
      · rw [he] at hv
        cases hv
    · cases hs
      exact .inl hv
  | _ => exact .inl ((frame_of_sem hs).workorders rfl ▸ hv)

theorem recorded_note (h : Recorded s.workorders x.clock x.ended) (ha : Allowed config k q o)
    (hclock : x.clock ≤ w.time) (hs : serverSem env config o w s = some (s',r)) :
    Recorded s'.workorders w.time (x.note o w s s').ended := by
  intro id v hv ht
  have horigin := entry_of_sem ha hs hv
  by_cases hnew : (s.workorders.lookup id).map (·.status) = some v.status
  · -- The status is the one it had, and so is the recorded end.
    have hend : (x.note o w s s').ended id = x.ended id := by
      simp [Watch.note,entersEnd,hv,hnew]
    obtain ⟨u,hu,hst⟩ := Option.map_eq_some_iff.mp hnew
    obtain ⟨e,he,hstamp⟩ := h id u hu (by rw [hst]; exact ht)
    refine ⟨e,hend.trans he,fun hne => ?_⟩
    obtain ⟨h1,h2⟩ := hstamp (by rw [hst]; exact hne)
    rcases horigin with ho | ho | ho | ho
    · rw [hu] at ho
      cases ho
      exact ⟨h1,h2.trans hclock⟩
    · rw [ho] at ht
      cases ht
    · rw [ho]
      exact ⟨(h1.trans h2).trans hclock,le_rfl⟩
    · exact absurd ho hne
  · have hend : (x.note o w s s').ended id = some w.time := by
      simp [Watch.note,entersEnd,hv,hnew,ht]
    refine ⟨w.time,hend,fun hne => ?_⟩
    rcases horigin with ho | ho | ho | ho
    · rw [ho] at hnew
      exact absurd rfl hnew
    · rw [ho] at ht
      cases ht
    · rw [ho]
      exact ⟨le_rfl,le_rfl⟩
    · exact absurd ho hne

structure Witnessed (config : ServerConfig) (p : Pass) : Prop where
  recorded : Recorded p.found p.now p.ended
  taken : ∀ id v, p.found.lookup id = some v → (p.left.lookup id = none ↔
    ∃ cutoff, hoursBefore p.now config.retentionHours = some cutoff ∧ past cutoff v)

theorem witnessed_of_sem {r : ServerRes .evict} (hcap : config.maxRetainedWorkorders = 0)
    (h : Recorded s.workorders x.clock x.ended) (hclock : x.clock ≤ w.time)
    (hs : serverSem env config .evict w s = some (s',r)) :
    Witnessed config ⟨w.time,s.workorders,s'.workorders,x.ended⟩ where
  recorded id v hv ht := by
    obtain ⟨e,he,hstamp⟩ := h id v hv ht
    exact ⟨e,he,fun hne => ⟨(hstamp hne).1,(hstamp hne).2.trans hclock⟩⟩
  taken id v hv := by
    change s.workorders.lookup id = some v at hv
    simp only [serverSem,Option.ite_none_right_eq_some] at hs
    obtain ⟨-,hs⟩ := hs
    split at hs
    · next cutoff hcut =>
      cases hs
      have hnone : excessIds config.maxRetainedWorkorders (kept cutoff s.workorders) = [] := by
        simp [excessIds,hcap]
      change (evictWorkorders config cutoff s).1.workorders.lookup id = none ↔ _
      rw [evicted_workorders,lookup_without,hnone,if_neg List.not_mem_nil,kept,lookup_without,hv]
      simp [hcut,mem_staleIds_iff hv]
    · next hcut =>
      cases hs
      change s.workorders.lookup id = none ↔ _
      simp [hcut,hv]

theorem ahead_of_wrapped (now : ℤ) {n : ℕ} (hn : n < 2^64) :
    now < now-((n : ℤ)-2^64)*3600*1000000000 := by
  omega

theorem honoured_iff_clear {p : Pass} (hn : config.retentionHours < 2^64)
    (h : Witnessed config p) : Honoured config p ↔ Clear config p := by
  constructor
  · intro hon
    have late : ∀ id v cutoff, hoursBefore p.now config.retentionHours = some cutoff →
        p.found.lookup id = some v → past cutoff v → ¬ StillRetained config p id := by
      rintro id v cutoff hcut hv hp ⟨e,he,hlt⟩
      obtain ⟨e',he',hle⟩ := hon id v hv ((h.taken id v hv).mpr ⟨cutoff,hcut,hp⟩)
      rw [he] at he'
      cases he'
      exact absurd hle (not_le.mpr hlt)
    constructor
    · intro cutoff id v hcut hv hst hkept
      by_contra hlt
      refine late id v cutoff hcut hv ?_ hkept
      simpa [past,hst,WorkorderStatus.terminal] using not_le.mp hlt
    · intro id v hsome hover hv ht hne
      obtain ⟨cutoff,hcut⟩ := Option.ne_none_iff_exists'.mp hsome
      obtain ⟨e,-,hstamp⟩ := h.recorded id v hv ht
      -- The wrapped cutoff is ahead of the clock.
      have hahead : p.now < cutoff := by
        have hlarge : ¬ config.retentionHours < 2^63 := fun hsmall =>
          hover ((noOverflow_iff hn).mpr ⟨hsmall,hsome⟩)
        rw [hoursBefore_some hcut,asI64_of_ge (not_lt.mp hlarge) hn]
        exact ahead_of_wrapped p.now hn
      exact late id v cutoff hcut hv (by simpa [past,ht] using (hstamp hne).2.trans_lt hahead)
  · intro hclear id v hv hgone
    obtain ⟨cutoff,hcut,hp⟩ := (h.taken id v hv).mp hgone
    simp only [past,Bool.and_eq_true,decide_eq_true_eq] at hp
    obtain ⟨e,he,hstamp⟩ := h.recorded id v hv hp.1
    refine ⟨e,he,not_lt.mp fun hlt => ?_⟩
    have hkept : StillRetained config p id := ⟨e,he,hlt⟩
    by_cases hst : v.status = .cancelled
    · exact absurd (hclear.cancelled cutoff id v hcut hv hst hkept) (not_le.mpr hp.2)
    · by_cases hfits : NoOverflow p.now config.retentionHours
      · unfold NoOverflow at hfits
        rw [hfits] at hcut
        cases hcut
        have hold : e < p.now-hours config.retentionHours := (hstamp hst).1.trans_lt hp.2
        exact lt_asymm hlt (older_than_window hold)
      · exact hclear.finished id v (by simp [hcut]) hfits hv hp.1 hst hkept

end

variable {env : Codecs} {config : ServerConfig}

/-- A server that has just started, with the times at which the workorders it
has loaded ended under the one before it. -/
inductive StartedAt (env : Codecs) (config : ServerConfig) : TimedPool → Prop where
  | intro {P : ServerPool} (h : Started env config P) (clock : Time)
      (ended : WorkorderId → Option Time) (hr : Recorded P.shared.workorders clock ended) :
      StartedAt env config ⟨(P.shared,⟨clock,ended,[]⟩),P.tasks⟩

def Followed (config : ServerConfig) (s : Server) (x : Watch) : Prop :=
  Recorded s.workorders x.clock x.ended ∧ ∀ p ∈ x.passes, Witnessed config p

theorem followed_note {k : TaskKind} {q : Phase} {o : ServerOp} {w : ServerOracle}
    {r : ServerRes o} {s s' : Server} {x : Watch} (hcap : config.maxRetainedWorkorders = 0)
    (h : Followed config s x) (ha : Allowed config k q o) (hclock : watch.admits w x)
    (hs : serverSem env config o w s = some (s',r)) : Followed config s' (x.note o w s s') := by
  have hle : x.clock ≤ w.time := by simpa [watch] using hclock
  refine ⟨recorded_note h.1 ha hle hs,?_⟩
  intro p hp
  unfold Watch.note at hp
  dsimp only at hp
  split at hp
  · rcases List.mem_cons.mp hp with rfl | hp
    · exact witnessed_of_sem hcap h.1 hle hs
    · exact h.2 p hp
  · exact h.2 p hp

theorem followed_run {P0 P : TimedPool} {ls : List ServerLabel}
    (hcap : config.maxRetainedWorkorders = 0) (start : StartedAt env config P0)
    (run : Run (timedSystem env config) unrestricted P0 ls P) :
    Followed config P.shared.1 P.shared.2 := by
  cases start with
  | intro h clock ended hr =>
    cases h with
    | intro now store disk issued hw =>
      refine recorded_invariant (phases_obeyed env config) (Followed config) ?_ run
        ⟨startPhases,fun i => tracks_start env config (boot config now store disk issued) i⟩
        ⟨hr,fun p hp => by cases hp⟩
      intro s x k q o w s' r hf ha hc hs
      exact followed_note hcap hf ha hc hs

/-- In a run without an entry cap, no workorder is evicted before the retention
time has passed since its end, exactly if no pass finds a workorder cancelled
within that time whose time stamp is older, and none finds a finished one under
a retention time that does not fit. -/
theorem retention_counts_from_end_iff {P0 P : TimedPool} {ls : List ServerLabel}
    (hcap : config.maxRetainedWorkorders = 0) (hn : config.retentionHours < 2^64)
    (start : StartedAt env config P0)
    (run : Run (timedSystem env config) unrestricted P0 ls P) :
    (∀ p ∈ P.shared.2.passes, Honoured config p) ↔ ∀ p ∈ P.shared.2.passes, Clear config p := by
  have hf := (followed_run hcap start run).2
  exact forall₂_congr fun p hp => honoured_iff_clear hn (hf p hp)

def freshTimed (config : ServerConfig) : TimedPool :=
  ⟨((freshPool plainCodecs config).shared,⟨0,fun _ => none,[]⟩),
    (freshPool plainCodecs config).tasks⟩

def lateCancelMoves (evictAt : Time) : List (Move TaskKind ServerOracle) :=
  [.start 3 (.submit (sampleRequest "c1"))] ++ SnapshotRetention.actsAt 0 16 3 9 "w1" ++
    [.start 4 (.cancel "w1")] ++ SnapshotRetention.actsAt (SnapshotRetention.days 2) 1 4 9 "w1" ++
    SnapshotRetention.actsAt evictAt 1 1 9 "w1"

/-- The run of a cancel after two days and a pass two days after that. -/
theorem late_cancel_retained_iff :
    ∃ ls P, Run (timedSystem plainCodecs uncapped) unrestricted (freshTimed uncapped) ls P ∧
      P.shared.2.passes.length = 1 ∧
      ((∀ p ∈ P.shared.2.passes, Honoured uncapped p) ↔
        ∀ p ∈ P.shared.2.passes, Clear uncapped p) := by
  obtain ⟨ls,P,run,hone⟩ := exists_run_of_free_play (timedSystem plainCodecs uncapped)
    (lateCancelMoves (SnapshotRetention.days 4)) (freshTimed uncapped)
    (fun _ P => P.shared.2.passes.length == 1) (by decide)
  exact ⟨ls,P,run,by simpa using hone,retention_counts_from_end_iff rfl (by decide)
    (.intro (started_fresh plainCodecs uncapped) 0 (fun _ => none) fun _ _ h => by cases h) run⟩

def evictsEarly (config : ServerConfig) (id : WorkorderId) (p : Pass) : Bool :=
  (p.found.lookup id).isSome && (p.left.lookup id).isNone &&
    (p.ended id).any fun e => p.now-e < hours config.retentionHours

/-- A pass one hour after the cancel evicts the workorder, which is to be kept
for a day after its end. -/
theorem cancelled_workorder_evicted_early :
    uncapped.maxRetainedWorkorders = 0 ∧ uncapped.retentionHours = 24 ∧
    ∃ ls P, Run (timedSystem plainCodecs uncapped) unrestricted (freshTimed uncapped) ls P ∧
      ∃ p ∈ P.shared.2.passes, ¬ Honoured uncapped p := by
  obtain ⟨ls,P,run,hearly⟩ := exists_run_of_free_play (timedSystem plainCodecs uncapped)
    (lateCancelMoves (SnapshotRetention.days 2+hours 1)) (freshTimed uncapped)
    (fun _ P => P.shared.2.passes.any (evictsEarly uncapped "w1")) (by decide)
  obtain ⟨p,hp,he⟩ := List.any_eq_true.mp hearly
  refine ⟨rfl,rfl,ls,P,run,p,hp,fun hon => ?_⟩
  simp only [evictsEarly,Bool.and_eq_true,Option.isNone_iff_eq_none,Option.isSome_iff_exists,
    Option.any_eq_true,decide_eq_true_eq] at he
  obtain ⟨⟨⟨v,hv⟩,hgone⟩,e,hend,hlt⟩ := he
  obtain ⟨e',hend',hle⟩ := hon "w1" v hv hgone
  rw [hend] at hend'
  cases hend'
  exact absurd hle (not_le.mpr hlt)

end Remerge.RetentionClock
