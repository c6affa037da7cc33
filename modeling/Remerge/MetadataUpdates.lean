import Remerge.Interleaving
import Remerge.MetadataFiles

/-!
# Concurrent updates of one blob's metadata

`touch_blob` and `store_encoded_blob_variant` load the metadata of a digest,
change one field and replace the file, with no lock around the two. A call that
loads before another one persists, and persists after it, undoes it. Calls that do
not overlap keep what has been answered, provided a touch is not earlier than the
last one.
-/

set_option autoImplicit false

namespace Remerge.MetadataUpdates
open StepProgram Interleaving SnapshotTypes InodeFiles BlobStore MetadataFiles Function

inductive UpdateCall where
  | touch (lastReferencedAt : Time)
  | variant (rawSizeBytes : ℕ) (bytes : Bytes)
  deriving DecidableEq

inductive UpdateTask where
  | running (call : UpdateCall)
  | returned (call : UpdateCall)

abbrev UpdateLabel : Type := Label UpdateTask FileOp FileRes
abbrev UpdatePool : Type := Pool UpdateTask FileOp FileRes StoreDisk
abbrev UpdateCondition : Type := Condition UpdateTask FileOp FileRes StoreDisk

section
variable (d : Digest)

def returns {α : Type} (call : UpdateCall) (x : FileProg α) :
    Prog FileOp FileRes (Option UpdateTask) :=
  outcome x >>= fun
    | .ok _ => .ret (some (.returned call))
    | .error _ => .ret none

def updateBody : UpdateTask → Prog FileOp FileRes (Option UpdateTask)
  | .running (.touch t) => returns (.touch t) (touchEntry .blob d t)
  | .running (.variant size bytes) =>
    returns (.variant size bytes) (storeEncodedBlobVariant d size bytes)
  | .returned _ => .ret none

def updateSystem : System UpdateTask FileOp FileRes StoreDisk FileOracle where
  sem := fileSem
  body := updateBody d
  spawns _ := none
  starts
    | .running _ => true
    | .returned _ => false

def answered : UpdateLabel → Option UpdateCall
  | .next _ (.running call) (some _) => some call
  | _ => none

def UpdateCall.shows (m : StoredMetadata) : UpdateCall → Bool
  | .touch t => t ≤ m.lastReferencedAt
  | .variant _ _ => m.encodedVariants.isSome

def honoured (s : StoreDisk) (call : UpdateCall) : Bool :=
  match s.read (.metadata .blob d) with
  | some (.metadata m) => call.shows m
  | _ => false

def NotBackdated (s : StoreDisk) : UpdateTask → Prop
  | .running (.touch t) => ∀ m, s.read (.metadata .blob d) = some (.metadata m) →
      m.lastReferencedAt ≤ t
  | _ => True

/-- A call starts when every other one has been answered, and a touch is no earlier
than what is persisted. -/
def oneAtATime : UpdateCondition := fun s kinds l =>
  match l with
  | .start _ k => (∀ i call, kinds i ≠ some (.running call)) ∧ NotBackdated d s k
  | _ => True

end

section
variable {d : Digest} {s s' : StoreDisk} {call : UpdateCall} {m m' : StoredMetadata}

theorem honoured_iff : honoured d s call ↔
    ∃ m, look s (metadataFile d) = some (.metadata m) ∧ call.shows m := by
  unfold honoured
  rw [show look s (metadataFile d) = s.read (metadataFile d) from rfl]
  cases s.read (metadataFile d) with
  | none => simp
  | some c =>
    cases c with
    | metadata m => simp
    | _ => simp

theorem honoured_becomes {size : ℕ} (h : Ensured d size s m)
    (hm : look s' (metadataFile d) = some (.metadata m'))
    (keeps : look s (metadataFile d) = some (.metadata m) → call.shows m → call.shows m')
    (hc : honoured d s call) : honoured d s' call := by
  obtain ⟨m0,h0,hc⟩ := honoured_iff.mp hc
  rcases h.2 with h | ⟨h,-⟩
  · cases h.symm.trans h0
    exact honoured_iff.mpr ⟨m',hm,keeps h hc⟩
  · cases h.symm.trans h0

theorem honoured_underway (h : Underway d s s') (hc : honoured d s call) : honoured d s' call := by
  rcases h with h | ⟨size,m,side,hm,hb⟩
  · rw [honoured_iff] at hc ⊢
    rwa [h]
  · exact honoured_becomes hm (by simp [hb]) (fun _ h => h) hc

variable (d) in
/-- A call on its way: what has been answered holds at every point, and its own
promise once it returns. -/
def Pending (R : UpdateCall → Prop) (call : UpdateCall)
    (p : Prog FileOp FileRes (Option UpdateTask)) (s : StoreDisk) : Prop :=
  Throughout (fun s' => ∀ c, R c → honoured d s' c) p
    (fun s' k => (∀ c, R c → honoured d s' c) ∧
      (k = none ∨ k = some (.returned call) ∧ honoured d s' call)) s

variable {R : UpdateCall → Prop}

theorem pending_returns {α : Type} {x : FileProg α} {done : StoreDisk → α → Prop}
    (hx : Ensures x done (Underway d s) s) (hR : ∀ c, R c → honoured d s c)
    (hd : ∀ s' a, done s' a → honoured d s' call ∧ ∀ c, honoured d s c → honoured d s' c) :
    Pending d R call (returns call x) s := by
  have underway : ∀ s', Underway d s s' → ∀ c, R c → honoured d s' c :=
    fun s' h c hc => honoured_underway h (hR c hc)
  refine safely_seq (safely_mono hx (fun _ _ h => h) fun _ => underway) fun s' r h => ?_
  cases r with
  | ok a =>
    obtain ⟨own,keeps⟩ := hd s' a h
    exact ⟨fun c hc => keeps c (hR c hc),.inr ⟨rfl,own⟩⟩
  | error e => exact ⟨underway s' h,.inl rfl⟩

theorem pending_start (hR : ∀ c, R c → honoured d s c)
    (ht : NotBackdated d s (.running call)) :
    Pending d R call (updateBody d (.running call)) s := by
  cases call with
  | touch t =>
    refine pending_returns (ensures_touchEntry t) hR ?_
    rintro s' a ⟨size,m,-,hm,hb⟩
    have now := (congrFun hb (metadataFile d)).trans (update_self _ _ _)
    refine ⟨honoured_iff.mpr ⟨_,now,decide_eq_true (le_refl t)⟩,fun c hc => ?_⟩
    refine honoured_becomes hm now (fun h hs => ?_) hc
    cases c with
    | touch t' => exact decide_eq_true ((of_decide_eq_true hs).trans (ht m h))
    | variant size bytes => exact hs
  | variant size bytes =>
    refine pending_returns (ensures_storeEncodedBlobVariant bytes) hR ?_
    rintro s' a ⟨m,hm,hb⟩
    have now := ((congrFun hb (metadataFile d)).trans (update_of_ne sidecar_ne.symm _ _)).trans
      (update_self _ _ _)
    refine ⟨honoured_iff.mpr ⟨_,now,rfl⟩,fun c hc => ?_⟩
    refine honoured_becomes hm now (fun _ hs => ?_) hc
    cases c with
    | touch t' => exact hs
    | variant size' bytes' => rfl

theorem Pending.kept {p : Prog FileOp FileRes (Option UpdateTask)} (h : Pending d R call p s)
    (c : UpdateCall) (hc : R c) : honoured d s c := by
  cases p with
  | ret k => exact h.1 c hc
  | step o next => exact h.1 c hc

end

variable {d : Digest} {R : UpdateCall → Prop} {P P' : UpdatePool} {l : UpdateLabel}
  {ls : List UpdateLabel}

/-- At most one call is on its way, and what has been answered holds. -/
structure Serial (d : Digest) (R : UpdateCall → Prop) (P : UpdatePool) : Prop where
  kept : ∀ c, R c → honoured d P.shared c
  finished : ∀ i c p, P.tasks i = some ⟨.returned c,p⟩ → p = .ret none
  pending : ∀ i c p, P.tasks i = some ⟨.running c,p⟩ → Pending d R c p P.shared
  alone : ∀ i j c c' p p', P.tasks i = some ⟨.running c,p⟩ → P.tasks j = some ⟨.running c',p'⟩ →
    i = j

/-- One task moves on. It is not running, or it is the only one that is. -/
theorem serial_update {R' : UpdateCall → Prop} {s' : StoreDisk} {i : ℕ}
    {t : Option (Task UpdateTask FileOp FileRes)} (h : Serial d R P)
    (kept : ∀ c, R' c → honoured d s' c)
    (finished : ∀ c p, t = some ⟨.returned c,p⟩ → p = .ret none)
    (own : ∀ c p, t = some ⟨.running c,p⟩ → Pending d R' c p s')
    (others : ∀ j c p, j ≠ i → P.tasks j = some ⟨.running c,p⟩ →
      Pending d R' c p s' ∧ ∀ c' p', t ≠ some ⟨.running c',p'⟩) :
    Serial d R' ⟨s',update P.tasks i t⟩ where
  kept := kept
  finished j c p hj := by
    by_cases e : j = i
    · subst e
      exact finished c p (by simpa using hj)
    · exact h.finished j c p (by simpa [e] using hj)
  pending j c p hj := by
    by_cases e : j = i
    · subst e
      exact own c p (by simpa using hj)
    · exact (others j c p e (by simpa [e] using hj)).1
  alone j j' c c' p p' hj hj' := by
    by_cases e : j = i <;> by_cases e' : j' = i
    · rw [e,e']
    · subst e
      exact absurd (by simpa using hj) ((others j' c' p' e' (by simpa [e'] using hj')).2 c p)
    · subst e'
      exact absurd (by simpa using hj') ((others j c p e (by simpa [e] using hj)).2 c' p')
    · exact h.alone j j' c c' p p' (by simpa [e] using hj) (by simpa [e'] using hj')

theorem serial_step (h : Serial d R P) (hs : Step (updateSystem d) P l P')
    (hc : oneAtATime d P.shared P.kinds l) :
    Serial d (fun c => R c ∨ answered l = some c) P' := by
  cases hs with
  | @start k j hk free =>
    simp only [answered,reduceCtorEq,or_false]
    cases k with
    | returned c => cases hk
    | running c =>
      refine serial_update h h.kept (fun _ _ e => by cases e) (fun c' p e => ?_) fun i c' p _ ht => ?_
      · cases e
        exact pending_start h.kept hc.2
      · exact absurd (by simp [Pool.kinds,ht]) (hc.1 i c')
  | @act i j k o next w s' r ht hs free =>
    simp only [answered,reduceCtorEq,or_false]
    cases k with
    | returned c => cases h.finished i c _ ht
    | running c =>
      have later : Pending d R c (next r) s' := (h.pending i c _ ht).2 w s' r hs trivial
      refine serial_update h later.kept (fun _ _ e => by cases e) (fun c' p e => ?_) fun j c' p hj hr => ?_
      · cases e
        exact later
      · exact absurd (h.alone j i c' c p _ hr ht) hj
  | @next i k k' ht =>
    cases k with
    | returned c =>
      simp only [answered,reduceCtorEq,or_false]
      cases h.finished i c _ ht
      exact serial_update h h.kept (fun _ _ e => by cases e) (fun _ _ e => by cases e)
        fun j c' p _ hr => ⟨h.pending j c' p hr,fun _ _ e => by cases e⟩
    | running c =>
      obtain ⟨kept,rfl | ⟨rfl,own⟩⟩ := h.pending i c _ ht
      · simp only [answered,reduceCtorEq,or_false]
        exact serial_update h kept (fun _ _ e => by cases e) (fun _ _ e => by cases e)
          fun j c' p hj hr => absurd (h.alone j i c' c p _ hr ht) hj
      · refine serial_update h ?_ (fun c' p e => ?_) (fun _ _ e => by cases e)
          fun j c' p hj hr => absurd (h.alone j i c' c p _ hr ht) hj
        · rintro c' (hR | e)
          · exact kept c' hR
          · cases e
            exact own
        · cases e
          rfl

theorem serial_run (run : Run (updateSystem d) (oneAtATime d) P ls P') (h : Serial d R P) :
    Serial d (fun c => R c ∨ c ∈ ls.filterMap answered) P' := by
  induction run generalizing R with
  | refl P => simpa using h
  | @cons P P1 P2 l ls hs hc _ ih =>
    have h' := ih (serial_step h hs hc)
    have e : (fun c => (R c ∨ answered l = some c) ∨ c ∈ ls.filterMap answered) =
        fun c => R c ∨ c ∈ (l::ls).filterMap answered := by
      funext c
      simp [or_assoc]
    rwa [e] at h'

/-- Calls that do not overlap lose no touch and no variant. -/
theorem returned_updates_kept (d : Digest) (s : StoreDisk) (P : UpdatePool) (ls : List UpdateLabel)
    (run : Run (updateSystem d) (oneAtATime d) ⟨s,fun _ => none⟩ ls P) :
    ∀ call ∈ ls.filterMap answered, honoured d P.shared call := by
  have start : Serial d (fun _ => False) ⟨s,fun _ => none⟩ := ⟨nofun,nofun,nofun,nofun⟩
  exact fun call hc => (serial_run run start).kept call (.inr hc)

def untouchedBlob : StoreDisk :=
  (Disk.empty.create (.raw .blob (sampleSha256 [97])) (.bytes [97])).create
    (.metadata .blob (sampleSha256 [97])) (.metadata ⟨sampleSha256 [97],1,0,none⟩)

def freshUuid (i : ℕ) : FileOracle where
  time := 0
  uuid := String.ofList (List.replicate i 'u')
  fault := false
  torn := none
  parity := .default
  distfiles := ∅
  output := []

def operations (i first steps : ℕ) : List (Move UpdateTask FileOracle) :=
  (List.range steps).map fun n => .act i 9 (freshUuid (first+n))

def serialCheck (d : Digest) (s : StoreDisk) (kinds : ℕ → Option UpdateTask) :
    UpdateLabel → Bool
  | .start _ k =>
    ((List.range 10).all fun i => match kinds i with
      | some (.running _) => false
      | _ => true) &&
    match k, s.read (.metadata .blob d) with
    | .running (.touch t), some (.metadata m) => m.lastReferencedAt ≤ t
    | _, _ => true
  | _ => true

theorem oneAtATime_of_check (s : StoreDisk) (kinds : ℕ → Option UpdateTask) (l : UpdateLabel)
    (high : ∀ i, 10 ≤ i → kinds i = none) (h : serialCheck d s kinds l) :
    oneAtATime d s kinds l := by
  cases l with
  | start j k =>
    obtain ⟨hidle,htime⟩ := Bool.and_eq_true_iff.mp h
    refine ⟨fun i call hi => ?_,?_⟩
    · by_cases hlow : i < 10
      · have hall := List.all_eq_true.mp hidle i (List.mem_range.mpr hlow)
        simp [hi] at hall
      · rw [high i (by omega)] at hi
        cases hi
    · cases k with
      | returned call => trivial
      | running call =>
        cases call with
        | variant size bytes => trivial
        | touch t =>
          intro m hm
          simpa [hm] using htime
  | _ => trivial

/-- The blob is touched, gets a variant and is touched again. -/
theorem updates_in_turn_kept :
    ∃ ls P, Run (updateSystem (sampleSha256 [97])) (oneAtATime (sampleSha256 [97]))
        ⟨untouchedBlob,fun _ => none⟩ ls P ∧
      ls.filterMap answered = [.touch 5,.variant 1 [1],.touch 7] ∧
      ∀ call ∈ ls.filterMap answered, honoured (sampleSha256 [97]) P.shared call := by
  have played : (play (updateSystem (sampleSha256 [97])) (serialCheck (sampleSha256 [97]))
      (.start 0 (.running (.touch 5))::operations 0 0 5++.next 0::
        .start 1 (.running (.variant 1 [1]))::operations 1 5 8++.next 1::
        .start 2 (.running (.touch 7))::operations 2 13 5++[.next 2])
      ⟨untouchedBlob,fun _ => none⟩).any
        (fun r => r.1.filterMap answered == [.touch 5,.variant 1 [1],.touch 7]) := by decide
  obtain ⟨⟨ls,P⟩,hp,ht⟩ := (Option.any_eq_true _ _).mp played
  have run := run_of_play_below oneAtATime_of_check _ (by decide) (fun _ _ => rfl) hp
  exact ⟨ls,P,run,eq_of_beq ht,returned_updates_kept _ _ P ls run⟩

/-- A variant is stored while the blob is touched: it persists the time it loaded. -/
theorem overlapping_touch_lost :
    ∃ ls P, Run (updateSystem (sampleSha256 [97])) unrestricted
        ⟨untouchedBlob,fun _ => none⟩ ls P ∧
      .touch 5 ∈ ls.filterMap answered ∧
      honoured (sampleSha256 [97]) P.shared (.touch 5) = false := by
  obtain ⟨ls,P,run,ht⟩ := exists_run_of_free_play (updateSystem (sampleSha256 [97]))
    (.start 0 (.running (.variant 1 [1]))::operations 0 0 1++
      .start 1 (.running (.touch 5))::operations 1 1 5++.next 1::operations 0 6 7)
    ⟨untouchedBlob,fun _ => none⟩
    (fun ls P => ls.filterMap answered == [.touch 5] &&
      !honoured (sampleSha256 [97]) P.shared (.touch 5)) (by decide)
  obtain ⟨hl,hh⟩ := Bool.and_eq_true_iff.mp ht
  exact ⟨ls,P,run,by rw [eq_of_beq hl]; decide,by simpa using hh⟩

end Remerge.MetadataUpdates
