import Remerge.ServerLifetimes

/-!
# Results across a restart

A status change is saved at once, a result only by the periodic saver. A
server that stops in between has an ended workorder on disk and has lost its
result. A record beside the run notes what the results were when the saver last
read them, and what they were when it read the copy it last wrote: the file shows
the latter, so a result is found again exactly if it had been recorded by then.
-/

set_option autoImplicit false

namespace Remerge.ResultPersistence
open StepProgram Interleaving RecordedRuns SnapshotTypes SnapshotStore SnapshotRuntime
open SnapshotCleanup ServerState ServerOps ServerTasks ServerPhases ServerCore ServerDataFlow
open ServerLifetimes Function

variable {env : Codecs} {config : ServerConfig}

abbrev Results : Type := Table WorkorderId WorkorderResult

def resultsFile (disk : Persisted) : Results := disk.results.getD ∅

/-- The results when a copy was last read, and when the copy last written was read. -/
structure Passes where
  read : Results
  written : Results

def Passes.note (o : ServerOp) (w : ServerOracle) (s _ : Server) (x : Passes) : Passes :=
  match o with
  | .readResults => { x with read := s.results }
  | .saveResults _ => if w.error.isSome then x else { x with written := x.read }
  | _ => x

/-- The record takes any oracle. -/
def savedSystem (env : Codecs) (config : ServerConfig) :
    System TaskKind ServerOp ServerRes (Server × Passes) ServerOracle :=
  recorded (serverSystem env config) ⟨fun _ _ => true,Passes.note⟩

abbrev SavedPool : Type := Pool TaskKind ServerOp ServerRes (Server × Passes)

/-- A server that has loaded its results has nothing else to save yet. -/
def savedStart (P : ServerPool) : SavedPool :=
  ⟨(P.shared,⟨P.shared.results,P.shared.results⟩),P.tasks⟩

abbrev saving (config : ServerConfig) : Discipline TaskKind ServerOp ServerRes (Seen × Phase) :=
  (watch config).both (phases config)

/-- There is one saver, the copy it holds is of the results when they were last
read, and the file is of the results when the copy in it was read. -/
structure Passed (s : Server × Passes) (g : Ghost TaskKind (Seen × Phase)) : Prop where
  saver : ∀ i k q, g i = some (k,q) → k = .save → i = 2
  copy : ∀ i k q m, g i = some (k,q) → q.1.results = some m → k = .save ∧ m = s.2.read
  file : resultsFile s.1.disk = s.2.written

section
variable {s s' : Server × Passes} {g g' : Ghost TaskKind (Seen × Phase)} {i : ℕ} {k : TaskKind}
  {q : Seen × Phase} {o : ServerOp} {r : ServerRes o} {w : ServerOracle}

theorem Passed.begin (h : Passed s g) {j : ℕ} (next : Option TaskKind)
    (hk : next = some .save → j = 2) : Passed s (update g j (next.map (saving config).task)) := by
  refine ⟨fun i k q hi hs => ?_,fun i k q m hi hm => ?_,h.file⟩
  · rcases update_some hi with ⟨rfl,e⟩ | ⟨-,e⟩
    · obtain ⟨k',rfl,e⟩ := Option.map_eq_some_iff.mp e
      cases e
      exact hk (by rw [hs])
    · exact h.saver i k q e hs
  · rcases update_some hi with ⟨-,e⟩ | ⟨-,e⟩
    · obtain ⟨k',-,e⟩ := Option.map_eq_some_iff.mp e
      cases e
      cases hm
    · exact h.copy i k q m e hm

theorem file_of_sem {t t' : Server} (hs : serverSem env config o w t = some (t',r))
    (h : ∀ m, o ≠ .saveResults m) : t'.disk.results = t.disk.results := by
  rw [effect_of_sem env config hs]
  cases o with
  | saveResults m => exact absurd rfl (h m)
  | evict =>
    simp only [effect]
    split <;> rfl
  | _ => rfl

theorem note_read {t t' : Server} {x : Passes} (h : o ≠ .readResults) :
    (Passes.note o w t t' x).read = x.read := by
  unfold Passes.note
  split
  · exact absurd rfl h
  · split <;> rfl
  · rfl

theorem Passed.act (h : Passed s g) (ht : g i = some (k,q))
    (allowed : ((saving config).monitor k).allows q o)
    (hs : (savedSystem env config).sem o w s = some (s',r)) :
    Passed s' (update g i (some (k,((saving config).monitor k).next q o r))) := by
  obtain ⟨-,hsem,hnote⟩ := recorded_sem hs
  obtain ⟨t',x'⟩ := s'
  have hx : x' = Passes.note o w s.1 t' s.2 := hnote
  subst hx
  have hwatch : watchAllows k q.1 o := allowed.1
  refine ⟨fun a k' q' ha hk => ?_,fun a k' q' m ha hm => ?_,?_⟩
  · rcases update_some ha with ⟨rfl,e⟩ | ⟨-,e⟩
    · cases e
      exact h.saver a k q ht hk
    · exact h.saver a k' q' e hk
  · by_cases ho : o = .readResults
    · -- whoever else had a copy would be a second saver
      subst ho
      cases hsem
      rcases update_some ha with ⟨rfl,e⟩ | ⟨hne,e⟩
      · cases e
        cases hm
        exact ⟨hwatch,rfl⟩
      · have hsave := (h.copy a k' q' m e hm).1
        exact absurd ((h.saver a k' q' e hsave).trans (h.saver i k q ht hwatch).symm) hne
    · change _ ∧ m = (Passes.note o w s.1 t' s.2).read
      rw [note_read ho]
      rcases update_some ha with ⟨rfl,e⟩ | ⟨-,e⟩
      · cases e
        refine h.copy a k q m ht ?_
        cases o <;> first | exact hm | exact absurd rfl ho
      · exact h.copy a k' q' m e hm
  · by_cases ho : ∃ m, o = .saveResults m
    · obtain ⟨m,rfl⟩ := ho
      cases hsem
      have hm := (h.copy i k q m ht hwatch.2).2
      change (if w.error.isSome then s.1.disk.results else some m).getD ∅ =
        (if w.error.isSome then s.2 else { s.2 with written := s.2.read }).written
      split
      · exact h.file
      · exact hm
    · have hfile := file_of_sem hsem fun m e => ho ⟨m,e⟩
      rw [resultsFile,hfile]
      change _ = (Passes.note o w s.1 t' s.2).written
      cases o <;> first | exact h.file | exact absurd ⟨_,rfl⟩ ho

theorem passed_step {l : ServerLabel} (h : Passed s g)
    (hs : GhostStep (savedSystem env config) (saving config) s g l s' g') : Passed s' g' := by
  cases hs with
  | start hk free =>
    refine h.begin (some _) fun e => ?_
    cases e
    cases hk
  | next ht ends =>
    refine h.begin _ fun e => h.saver _ _ _ ht ?_
    have hfinal : phaseFinal _ _ _ := ends.2
    rw [e] at hfinal
    rename_i k q k'
    cases k <;> simp_all [phaseFinal]
  | act ht allowed hs free =>
    rename_i i j k q o r w
    have hne : j ≠ i := fun e => by simp [e,ht] at free
    rw [Discipline.spawn_eq _ _ _ (by rwa [update_of_ne hne])]
    refine (h.act ht allowed hs).begin _ fun e => ?_
    cases o <;> cases e

theorem passed_run {P : ServerPool} {P' : SavedPool} {ls : List ServerLabel}
    (start : Started env config P)
    (run : Run (savedSystem env config) unrestricted (savedStart P) ls P') :
    resultsFile P'.shared.1.disk = P'.shared.2.written := by
  have obeyed : Obeys (serverSystem env config) (saving config) :=
    (watch_obeyed env config).both (phases_obeyed env config)
  cases start with
  | intro now store disk issued hf =>
    have first : Passed (savedStart (startPool env config (boot config now store disk issued))).shared
        (fun i => (backgroundKind i).map (saving config).task) := by
      refine ⟨fun i k q hi hk => ?_,fun i k q m hi hm => ?_,rfl⟩
      · obtain ⟨k',hb,e⟩ := Option.map_eq_some_iff.mp hi
        cases e
        subst hk
        match i, hb with
        | 2, _ => rfl
      · obtain ⟨k',-,e⟩ := Option.map_eq_some_iff.mp hi
        cases e
        cases hm
    obtain ⟨⟨g,-,hg⟩,-⟩ := run_invariant (obeys_recorded obeyed) Passed (fun _ => True)
      (fun _ _ _ _ _ h hs _ => ⟨passed_step h hs,trivial⟩) run
      ⟨_,tracks_background obeyed (boot config now store disk issued) fun _ => rfl,first⟩
    exact hg.file

end

def isFinished : WorkorderStatus → Bool
  | .completed | .failed _ => true
  | _ => false

def restarted (config : ServerConfig) (now : Time) (s : Server) : Server :=
  boot config now s.store s.disk s.issued

/-- Every finished workorder of the server that has a result in the first table
has one in the second. -/
def FinishedKeep (s : Server) (known found : Results) : Prop :=
  ∀ id st, s.statusOf id = some st → isFinished st → known.lookup id ≠ none → found.lookup id ≠ none

end Remerge.ResultPersistence
