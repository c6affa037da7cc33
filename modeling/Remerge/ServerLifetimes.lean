import Remerge.ActiveMarkers
import Remerge.ServerDataFlow

/-!
# Restarts

A restart loads whatever the state files hold at that moment: copies of the
workorder map that some task read earlier. Since every saved copy was read
from the map, its workorders are filed under identifiers that are not issued
again. Loading puts unfinished workorders back into the queue but clears all
markers, so the one-workorder rule survives a restart only if no unfinished
workorder was on disk.
-/

set_option autoImplicit false

namespace Remerge.ServerLifetimes
open StepProgram Interleaving SnapshotTypes SnapshotStore SnapshotRuntime SnapshotCleanup
open ServerState ServerOps ServerTasks ServerPhases ServerCore ServerDataFlow WorkorderIdentity
open AdmissionCap ActiveMarkers

variable {config : ServerConfig} {env : Codecs}

section

/-- Copies in the hands of tasks and on disk are filed like the map itself. -/
structure CopiesFiled (s : Server) (g : Ghost TaskKind Seen) : Prop where
  held : ∀ i k q m, g i = some (k,q) → q.copy = some m → Filed m s.issued
  disk : WellFiled s.disk s.issued

variable {w : ServerOracle} {s s' : Server} {g g' : Ghost TaskKind Seen}

theorem filed_mono {t : Table WorkorderId Workorder} {issued issued' : List Uuid}
    (h : Filed t issued) (hi : ∀ id ∈ issued, id ∈ issued') : Filed t issued' :=
  fun id w hl => ⟨(h id w hl).1,hi id (h id w hl).2⟩

variable {o : ServerOp} {r : ServerRes o}

theorem issued_of_sem (hs : serverSem env config o w s = some (s',r)) :
    ∀ id ∈ s.issued, id ∈ s'.issued := by
  intro id hid
  by_cases hn : o = .newId
  · subst hn
    simp only [serverSem,Option.ite_none_left_eq_some] at hs
    cases hs.2
    exact List.mem_cons_of_mem _ hid
  · rw [(frame_of_sem hs).issued hn]
    exact hid

variable {k : TaskKind} {q : Seen}

theorem disk_of_sem (hs : serverSem env config o w s = some (s',r)) (hq : watchAllows k q o)
    (hm : ∀ m, q.copy = some m → Filed m s.issued) (h : WellFiled s.disk s.issued) :
    WellFiled s'.disk s'.issued := by
  refine filed_mono ?_ (issued_of_sem hs)
  by_cases hd : ∃ m, o = .saveWorkorders m
  · obtain ⟨m,rfl⟩ := hd
    cases hs
    change Filed ((if w.error.isSome then s.disk.workorders else some m).getD ∅) s.issued
    split
    · exact h
    · exact hm m hq
  · rw [(frame_of_sem hs).files fun m e => hd ⟨m,e⟩]
    exact h

theorem copy_of_sem (hs : serverSem env config o w s = some (s',r))
    (hf : Filed s.workorders s.issued) (hm : ∀ m, q.copy = some m → Filed m s.issued) :
    ∀ m, (watchNext config k q o r).copy = some m → Filed m s'.issued := by
  intro m hn
  refine filed_mono ?_ (issued_of_sem hs)
  cases o with
  | readWorkorders | lockWorkordersRead =>
    cases hs
    cases hn
    exact hf
  | _ => exact hm m hn

theorem copies_spawn {j : ℕ} (h : CopiesFiled s g) :
    CopiesFiled s ((watch config).spawn (serverSystem env config) o j g) := by
  unfold Discipline.spawn
  split
  · exact h
  · refine ⟨fun i k q m hi hq => ?_,h.disk⟩
    rcases update_some (r := g) hi with ⟨-,e⟩ | ⟨-,e⟩
    · cases e
      cases hq
    · exact h.held i k q m e hq

theorem copies_step {l : ServerLabel} (h : CopiesFiled s g)
    (hs : GhostStep (serverSystem env config) (watch config) s g l s' g')
    (hf : Filed s.workorders s.issued) : CopiesFiled s' g' := by
  cases hs with
  | start hk free =>
    refine ⟨fun i k q m hi hq => ?_,h.disk⟩
    rcases update_some (r := g) hi with ⟨-,e⟩ | ⟨-,e⟩
    · cases e
      cases hq
    · exact h.held i k q m e hq
  | next ht ends =>
    rename_i k0 q0 k'
    refine ⟨fun i k q m hi hq => ?_,h.disk⟩
    rcases update_some (r := g) hi with ⟨-,e⟩ | ⟨-,e⟩
    · obtain ⟨k1,-,e⟩ := Option.map_eq_some_iff.mp e
      cases e
      cases hq
    · exact h.held i k q m e hq
  | act ht allowed hs free =>
    rename_i i0 j k0 q0 o r w0
    have held : ∀ m, q0.copy = some m → Filed m s.issued := fun m e => h.held i0 k0 q0 m ht e
    refine copies_spawn ⟨fun i k q m hi hq => ?_,disk_of_sem hs allowed held h.disk⟩
    rcases update_some (r := g) hi with ⟨-,e⟩ | ⟨-,e⟩
    · cases e
      exact copy_of_sem hs hf held m hq
    · exact filed_mono (h.held i k q m e hq) (issued_of_sem hs)

end

/-- The states of a server from its first start on, through any number of
restarts. Each run meets the condition; a restart finds files as required. -/
inductive Reached (env : Codecs) (cond : ServerCondition) (loads : Persisted → Prop) :
    ServerConfig → ServerPool → Prop where
  | fresh (config : ServerConfig) (now : Time) (store : StoredEntries) :
      Reached env cond loads config (startPool env config (boot config now store emptyDisk []))
  | run {config : ServerConfig} {P P' : ServerPool} {ls : List ServerLabel}
      (h : Reached env cond loads config P) (run : Run (serverSystem env config) cond P ls P') :
      Reached env cond loads config P'
  | restart {config : ServerConfig} {P : ServerPool} (config' : ServerConfig) (now : Time)
      (h : Reached env cond loads config P) (disk : loads P.shared.disk) :
      Reached env cond loads config' (startPool env config'
        (boot config' now P.shared.store P.shared.disk P.shared.issued))

def loadsNoActive (disk : Persisted) : Prop :=
  ∀ id w, (disk.workorders.getD ∅).lookup id = some w → w.isActive = false

variable {now : Time} {store : StoredEntries} {disk : Persisted} {issued : List Uuid}
  {P P' : ServerPool} {ls : List ServerLabel}

theorem marked_start (hf : WellFiled disk issued) (hd : loadsNoActive disk) :
    Marked (core (boot config now store disk issued)) startPhases := by
  have started : Started plainCodecs config
      (startPool plainCodecs config (boot config now store disk issued)) :=
    .intro now store disk issued hf
  refine ⟨identity_start started,entering_start _,?_,?_⟩
  · intro id w hl ha
    obtain ⟨v,hv,rfl⟩ := lookup_loadWorkorders hl
    have hna := hd id v hv
    have hkeep : resetInFlight now v = v := by
      unfold resetInFlight
      split
      · next e =>
        rcases e with e | e <;> simp [Workorder.isActive,e,WorkorderStatus.active] at hna
      · rfl
    rw [hkeep,hna] at ha
    cases ha
  · intro i x id hi
    rw [startPhases_role clearing_rests] at hi
    cases hi

structure Carried (config : ServerConfig) (P : ServerPool) : Prop where
  marked : ∃ g, Tracks (phases config) P g ∧ Marked (core P.shared) g
  filed : ∃ g, Tracks (watch config) P g ∧ CopiesFiled P.shared g

theorem carried_start (hf : WellFiled disk issued) (hd : loadsNoActive disk) :
    Carried config (startPool env config (boot config now store disk issued)) := by
  refine ⟨⟨startPhases,tracks_start env config _,marked_start hf hd⟩,
    ⟨_,tracks_watch env config _,⟨?_,hf⟩⟩⟩
  intro i k q m hi hq
  obtain ⟨k',-,e⟩ := Option.map_eq_some_iff.mp hi
  cases e
  cases hq

theorem marked_run (run : Run (serverSystem env config) markersKept P ls P')
    (h : ∃ g, Tracks (phases config) P g ∧ Marked (core P.shared) g) :
    ∃ g, Tracks (phases config) P' g ∧ Marked (core P'.shared) g :=
  (run_invariant (phases_obeyed env config) (fun s g => Marked (core s) g) (fun _ => True)
    (fun _ _ _ _ _ h hs hc =>
      ⟨marked_step h (phaseStep_of_ghost hs) (keeping_of_condition hc),trivial⟩) run h).1

theorem carried_run (h : Carried config P)
    (run : Run (serverSystem env config) markersKept P ls P') :
    Carried config P' := by
  refine ⟨marked_run run h.marked,?_⟩
  -- The map is filed in every state of the run, so every copy read from it is.
  have known : ∀ ls' P1, Run (serverSystem env config) markersKept P ls' P1 →
      Filed P1.shared.workorders P1.shared.issued := by
    intro ls' P1 run'
    obtain ⟨g,-,hm⟩ := marked_run run' h.marked
    exact hm.identity.filed
  exact (run_invariant (watch_obeyed env config) CopiesFiled (fun _ => True)
    (fun s g l s' g' h hs hc => ⟨copies_step h hs hc.2,trivial⟩)
    (run_strengthen (fun s => Filed s.workorders s.issued) run known) h.filed).1

theorem carried_reached (h : Reached env markersKept loadsNoActive config P) :
    Carried config P := by
  induction h with
  | fresh config now store =>
    exact carried_start (fun _ _ hl => by cases hl) fun _ _ hl => by cases hl
  | run _ run ih => exact carried_run ih run
  | restart config' now _ hd ih =>
    obtain ⟨g,-,hc⟩ := ih.filed
    exact carried_start hc.disk hd

/-- Through all runs and restarts a client has at most one active workorder,
provided that no write turns an ended workorder active again, a clear never
meets the marker of another workorder, and no restart loads an active one. -/
theorem one_active_workorder_per_client {P : ServerPool} {id id' : WorkorderId}
    {w w' : Workorder} (h : Reached env markersKept loadsNoActive config P)
    (hl : P.shared.workorders.lookup id = some w) (hl' : P.shared.workorders.lookup id' = some w')
    (ha : w.isActive) (ha' : w'.isActive) (hc : w.clientId = w'.clientId) :
    id = id' := by
  obtain ⟨g,-,hm⟩ := (carried_reached h).marked
  exact hm.one_active hl hl' ha ha' hc

def keepsMarkersCheck (s : Server) (kinds : ℕ → Option TaskKind) (l : ServerLabel) : Bool :=
  revivesNoneCheck s kinds l && match l with
    | .act _ k (.clearActive x) _ => s.markerOf x == none || s.markerOf x == forWorkorder k
    | _ => true

theorem markersKept_of_check (s : Server) (kinds : ℕ → Option TaskKind) (l : ServerLabel)
    (h : keepsMarkersCheck s kinds l) : markersKept s kinds l := by
  obtain ⟨hb,hc⟩ := Bool.and_eq_true_iff.mp h
  refine ⟨revivesNone_of_check s kinds l hb,?_⟩
  unfold clearsOwnMarker
  split
  · simpa using hc
  · trivial

def submitMoves (i : ℕ) (client : ClientId) (id : WorkorderId) :
    List (Move TaskKind ServerOracle) :=
  [.start i (.submit (sampleRequest client))] ++ acts 16 i 9 id ++ [.next i]

def claimedMoves : List (Move TaskKind ServerOracle) := submitMoves 3 "c1" "w1" ++ acts 7 0 4 "w1"

/-- A cancelled workorder is saved, the server restarts, and its client has
one active workorder again: the new one. -/
theorem one_active_after_restart :
    ∃ P, Reached plainCodecs markersKept loadsNoActive .default P ∧
      P.shared.statusOf "w1" = some .cancelled ∧ P.shared.statusOf "w2" = some .pending ∧
      ∀ id w, P.shared.workorders.lookup id = some w → w.isActive →
        w.clientId = "c1" → id = "w2" := by
  obtain ⟨ls,P1,run,h1⟩ := exists_run_of_play (serverSystem plainCodecs .default)
    markersKept_of_check
    (submitMoves 3 "c1" "w1" ++ [.start 4 (.cancel "w1")] ++ acts 6 4 9 "w1" ++ acts 6 2 9 "w1")
    (freshPool plainCodecs .default)
    (fun _ P1 => (P1.shared.disk.workorders.getD ∅).values.all (fun w => !w.isActive) &&
      (play (serverSystem plainCodecs .default) keepsMarkersCheck
        (submitMoves 3 "c1" "w2") (startPool plainCodecs .default
          (boot .default 0 P1.shared.store P1.shared.disk P1.shared.issued))).any
        fun r => r.2.shared.statusOf "w1" == some .cancelled &&
          (r.2.shared.statusOf "w2" == some .pending &&
            (r.2.shared.workorders.lookup "w2").any fun w => w.clientId == "c1"))
    (by decide)
  obtain ⟨hdisk,hplay⟩ := Bool.and_eq_true_iff.mp h1
  have hnone : loadsNoActive P1.shared.disk := by
    intro id w hl
    have hw := List.all_eq_true.mp hdisk w ((AList.mem_values _ _).mpr ⟨id,hl⟩)
    simpa using hw
  obtain ⟨ls',P2,run',h2⟩ := exists_run_of_play (serverSystem plainCodecs .default)
    markersKept_of_check _ _ (fun _ P => P.shared.statusOf "w1" == some .cancelled &&
      (P.shared.statusOf "w2" == some .pending &&
        (P.shared.workorders.lookup "w2").any fun w => w.clientId == "c1")) hplay
  simp only [Bool.and_eq_true,beq_iff_eq] at h2
  obtain ⟨hc,hp,hclient⟩ := h2
  have reached : Reached plainCodecs markersKept loadsNoActive .default P2 :=
    .run (.restart _ 0 (.run (.fresh .default 0 ∅) run) hnone) run'
  refine ⟨P2,reached,hc,hp,fun id w hl ha hw => ?_⟩
  obtain ⟨v,hv,hv'⟩ := (Option.any_eq_true _ _).mp hclient
  have hst : v.status = .pending := by
    have e : (some v).map (·.status) = some WorkorderStatus.pending := hv ▸ hp
    simpa using e
  refine one_active_workorder_per_client reached hl hv ha ?_ (hw.trans (eq_of_beq hv').symm)
  simp [Workorder.isActive,hst,WorkorderStatus.active]

/-- A restart puts the only workorder of a client back into the queue and
clears the client's marker; the next submit is admitted. -/
theorem two_active_after_restart :
    ∃ P, Reached plainCodecs unrestricted (fun _ => True) .default P ∧
      ∃ w w', P.shared.workorders.lookup "w1" = some w ∧
        P.shared.workorders.lookup "w2" = some w' ∧ w.isActive ∧ w'.isActive ∧
        w.clientId = w'.clientId := by
  obtain ⟨ls,P1,run,h1⟩ := exists_run_of_play (serverSystem plainCodecs .default)
    anyStep_unrestricted (submitMoves 3 "c1" "w1") (freshPool plainCodecs .default)
    (fun _ P1 => (play (serverSystem plainCodecs .default) anyStep
        (submitMoves 3 "c1" "w2") (startPool plainCodecs .default
          (boot .default 0 P1.shared.store P1.shared.disk P1.shared.issued))).any
        fun r => (r.2.shared.workorders.lookup "w1").any fun w =>
          (r.2.shared.workorders.lookup "w2").any fun w' =>
            w.isActive && (w'.isActive && w.clientId == w'.clientId)) (by decide)
  obtain ⟨ls',P2,run',h2⟩ := exists_run_of_play (serverSystem plainCodecs .default)
    anyStep_unrestricted _ _ (fun _ P => (P.shared.workorders.lookup "w1").any fun w =>
      (P.shared.workorders.lookup "w2").any fun w' =>
        w.isActive && (w'.isActive && w.clientId == w'.clientId)) h1
  obtain ⟨w,hw,h2⟩ := (Option.any_eq_true _ _).mp h2
  obtain ⟨w',hw',h2⟩ := (Option.any_eq_true _ _).mp h2
  simp only [Bool.and_eq_true,beq_iff_eq] at h2
  exact ⟨P2,.run (.restart _ 0 (.run (.fresh .default 0 ∅) run) trivial) run',
    w,w',hw,hw',h2⟩

end Remerge.ServerLifetimes
