import Remerge.ImageReaper
import Remerge.ServerCore

/-!
# Images in use

The reaper looks at the last uses once and then removes what it has selected, one
image after the other. A workorder has its image from the image check on until
its processing ends, but it records one time stamp only, after the check. So an
image is safe if no build outlasts the idle timeout with an image that is not the
newest of its group, and no check falls into the time between a look and the removal.
-/

set_option autoImplicit false

namespace Remerge.ImagesInUse
open StepProgram Interleaving SnapshotTypes SnapshotStore SnapshotCleanup ServerState ServerOps
open ServerTasks ServerCore ImageReaper Function

section

inductive ReapKind where
  | process (w : Workorder)
  | reaper

/-- The operations of a processor carry its workorder, and the last one marks the
end of the processing. -/
inductive ReapOp where
  | work (id : WorkorderId) (o : ServerOp)
  | finish (id : WorkorderId)
  | now
  | look (now : Time)
  | removeImage (tag : String)
  | forget (tag : String)

@[reducible] def ReapRes : ReapOp → Type
  | .work _ o => ServerRes o
  | .now => Time
  | .look _ => List String
  | _ => Unit

abbrev ReapProg (α : Type) : Type := Prog ReapOp ReapRes α

def act (o : ReapOp) : ReapProg (ReapRes o) := perform o

def removeAll : List String → ReapProg Unit
  | [] => pure ()
  | tag::rest => do
    act (.removeImage tag)
    act (.forget tag)
    removeAll rest

def reaperPass : ReapProg Unit := do
  let now ← act .now
  let expired ← act (.look now)
  removeAll expired

/-- The server, the images of the workorders that have passed their image check, and
what the reaper's pass has still to remove. -/
structure ReapState where
  server : Server
  inUse : Table WorkorderId String
  selected : List String

structure ReapOracle where
  server : ServerOracle := {}
  images : List (String × Time) := []

def passes : (o : ServerOp) → ServerRes o → Option String
  | .imageNeedsRebuild tag,needs => if needs = true then none else some tag
  | .buildWorkerImage tag,.ok () => some tag
  | _,_ => none

def noteUse (id : WorkorderId) (inUse : Table WorkorderId String) :
    Option String → Table WorkorderId String
  | some tag => inUse.insert id tag
  | none => inUse

def imagesOf (s : Server) : List (String × Time) := s.imageLastUsed.entries.map fun e => (e.1,e.2)

variable (env : Codecs) (config : ServerConfig) (timeout : ℕ)

/-- The order in which the map is gone through is not known. -/
def reapSem : Sem ReapOp ReapRes ReapState ReapOracle
  | .work id o,w,s =>
    (serverSem env config o w.server s.server).map fun x =>
      (⟨x.1,noteUse id s.inUse (passes o x.2),s.selected⟩,x.2)
  | .finish id,_,s => some ({ s with inUse := s.inUse.erase id },())
  | .now,w,s => some (s,w.server.time)
  | .look now,w,s =>
    if w.images.Perm (imagesOf s.server) then
      some ({ s with selected := expiredImages w.images now timeout },
        expiredImages w.images now timeout)
    else none
  | .removeImage _,_,s => some (s,())
  | .forget tag,_,s =>
    some ({ s with
      server := { s.server with imageLastUsed := s.server.imageLastUsed.erase tag }
      selected := s.selected.tail },())

def reapBody : ReapKind → ReapProg (Option ReapKind)
  | .process w => do
    interpret (fun o => act (.work w.id o)) (processWorkorder config w)
    act (.finish w.id)
    pure none
  | .reaper => do
    reaperPass
    pure (some .reaper)

def reapSystem : System ReapKind ReapOp ReapRes ReapState ReapOracle where
  sem := reapSem env config timeout
  body := reapBody config
  spawns := fun _ => none
  starts
    | .process _ => true
    | .reaper => false

abbrev ReapPool : Type := Pool ReapKind ReapOp ReapRes ReapState

def reapPool (server : Server) : ReapPool :=
  ⟨⟨server,∅,[]⟩,update (fun _ => none) 0 (some ⟨.reaper,reapBody config .reaper⟩)⟩

/-- Every other image of its group was used before the time. -/
def NewerThanGroup (s : Server) (tag : String) (time : Time) : Prop :=
  ∀ other t, s.imageLastUsed.lookup other = some t → imageTupleKey other = imageTupleKey tag →
    other ≠ tag → t < time

/-- No check passes for an image that a pass under way has selected, and when the
reaper looks, the recorded use of an image in use is within the timeout or the
last one of its group. -/
def Timely : Condition ReapKind ReapOp ReapRes ReapState
  | s,_,.act _ _ (.work _ o) r => ∀ tag, passes o r = some tag → tag ∉ s.selected
  | s,_,.act _ _ (.look now) _ => ∀ id tag time, s.inUse.lookup id = some tag →
      s.server.imageLastUsed.lookup tag = some time →
        now-time ≤ (timeout : ℤ) ∨ NewerThanGroup s.server tag time
  | _,_,_ => True

def Permits : ReapKind → List String → ReapOp → Prop
  | .process _,_,.work _ _ => True
  | .process _,_,.finish _ => True
  | .reaper,left,.now => left = []
  | .reaper,left,.look _ => left = []
  | .reaper,left,.removeImage tag => ∃ rest, left = tag::rest
  | .reaper,left,.forget tag => ∃ rest, left = tag::rest
  | _,_,_ => False

def leftAfter (left : List String) : (o : ReapOp) → ReapRes o → List String
  | .look _,expired => expired
  | .forget _,_ => left.tail
  | _,_ => left

def reapDiscipline : Discipline ReapKind ReapOp ReapRes (List String) where
  monitor k := ⟨Permits k,leftAfter⟩
  init _ := []
  final
    | .process _,_,k' => k' = none
    | .reaper,left,k' => left = [] ∧ k' = some .reaper

variable {env config timeout}

theorem conforms_work {α : Type} (w : Workorder) (p : ServerProg α) (left : List String) :
    Conforms ⟨Permits (.process w),leftAfter⟩ (fun _ _ => True) left
      (interpret (fun o => act (.work w.id o)) p) := by
  induction p generalizing left with
  | ret a => trivial
  | step o k ih => exact ⟨trivial,fun r => ih r left⟩

theorem conforms_removeAll (tags : List String) :
    Conforms ⟨Permits .reaper,leftAfter⟩ (fun left _ => left = []) tags (removeAll tags) := by
  induction tags with
  | nil => rfl
  | cons tag rest ih => exact ⟨⟨rest,rfl⟩,fun _ => ⟨⟨rest,rfl⟩,fun _ => ih⟩⟩

theorem reap_obeys : Obeys (reapSystem env config timeout) reapDiscipline := by
  intro k
  cases k with
  | process w =>
    exact conforms_bind (conforms_work w (processWorkorder config w) []) fun left _ _ =>
      ⟨trivial,fun _ => rfl⟩
  | reaper =>
    have hpass : Conforms ⟨Permits .reaper,leftAfter⟩ (fun left _ => left = []) [] reaperPass :=
      ⟨rfl,fun _ => ⟨rfl,fun expired => conforms_removeAll expired⟩⟩
    exact conforms_bind hpass fun left _ h => ⟨h,rfl⟩

/-- The reaper is one task, and nothing it has still to remove is in use. -/
structure Spared (s : ReapState) (g : Ghost ReapKind (List String)) : Prop where
  alone : ∀ i left, g i = some (.reaper,left) → i = 0 ∧ left = s.selected
  spared : ∀ tag ∈ s.selected, ∀ id, s.inUse.lookup id ≠ some tag

variable {s s' : ReapState} {g : Ghost ReapKind (List String)} {i : ℕ}

theorem mem_imagesOf {server : Server} {tag : String} {time : Time} :
    (tag,time) ∈ imagesOf server ↔ server.imageLastUsed.lookup tag = some time := by
  rw [imagesOf,List.mem_map]
  constructor
  · rintro ⟨e,he,hpair⟩
    cases hpair
    exact AList.mem_lookup_iff.mpr he
  · exact fun h => ⟨_,AList.mem_lookup_iff.mp h,rfl⟩

theorem spared_look {images : List (String × Time)} {now : Time}
    (hperm : images.Perm (imagesOf s.server))
    (h : ∀ id tag time, s.inUse.lookup id = some tag →
      s.server.imageLastUsed.lookup tag = some time →
        now-time ≤ (timeout : ℤ) ∨ NewerThanGroup s.server tag time) :
    ∀ tag ∈ expiredImages images now timeout, ∀ id, s.inUse.lookup id ≠ some tag := by
  intro tag htag id hid
  obtain ⟨time,hmem,hidle,hfree⟩ := mem_expiredImages.mp htag
  rcases h id tag time hid (mem_imagesOf.mp (hperm.mem_iff.mp hmem)) with hrecent | hnewer
  · exact absurd hidle (Int.not_lt.mpr hrecent)
  · -- the reaper protects the latest of the group, and there is no other
    obtain ⟨best,hbest,hprotected⟩ := protected_of_group hmem
    have hsame : tag = best.1 := by
      by_contra hne
      have hlt := hnewer best.1 best.2 (mem_imagesOf.mp (hperm.mem_iff.mp hbest.mem)) hbest.group
        (Ne.symm hne)
      exact absurd (hbest.latest _ hmem rfl) (Int.not_le.mpr hlt)
    rw [((hprotected tag).mpr hsame).1] at hfree
    cases hfree

theorem spared_work {o : ServerOp} {r : ServerRes o} {id : WorkorderId}
    (h : ∀ tag ∈ s.selected, ∀ id, s.inUse.lookup id ≠ some tag)
    (hc : ∀ tag, passes o r = some tag → tag ∉ s.selected) :
    ∀ tag ∈ s.selected, ∀ id', (noteUse id s.inUse (passes o r)).lookup id' ≠ some tag := by
  intro tag htag id' hid
  cases hp : passes o r with
  | none =>
    rw [hp] at hid
    exact h tag htag id' hid
  | some used =>
    rw [hp,noteUse,AList.lookup_insert_ite] at hid
    split at hid
    · cases hid
      exact hc tag hp htag
    · exact h tag htag id' hid

theorem Spared.other {x : Option (ReapKind × List String)} (h : Spared s g)
    (hx : ∀ left, x ≠ some (.reaper,left)) (hsel : s'.selected = s.selected)
    (hs : ∀ tag ∈ s.selected, ∀ id, s'.inUse.lookup id ≠ some tag) : Spared s' (update g i x) := by
  refine ⟨fun j left hj => ?_,hsel ▸ hs⟩
  rw [update_apply] at hj
  split at hj
  · exact (hx left hj).elim
  · exact hsel ▸ h.alone j left hj

theorem Spared.reaper {left : List String} (h : Spared s g) (hi : g i = some (.reaper,left))
    (hs : ∀ tag ∈ s'.selected, ∀ id, s'.inUse.lookup id ≠ some tag) :
    Spared s' (update g i (some (.reaper,s'.selected))) := by
  refine ⟨fun j left' hj => ?_,hs⟩
  have h0 := (h.alone i left hi).1
  rw [update_apply] at hj
  split at hj
  · next hij =>
    cases hj
    exact ⟨hij.trans h0,rfl⟩
  · next hij => exact absurd ((h.alone j left' hj).1.trans h0.symm) hij

theorem spared_step {g' : Ghost ReapKind (List String)} {l : Label ReapKind ReapOp ReapRes}
    (h : Spared s g) (hstep : GhostStep (reapSystem env config timeout) reapDiscipline s g l s' g')
    (hc : Timely timeout s g.kinds l) : Spared s' g' := by
  cases hstep with
  | start hk free =>
    refine h.other (fun left hx => ?_) rfl h.spared
    cases hx
    cases hk
  | @act _ _ i j k left o r w ht allowed hs free =>
    change Spared s' (update g i (some (k,leftAfter left o r)))
    cases k with
    | process wo =>
      have hother : ∀ q, some (ReapKind.process wo,leftAfter left o r) ≠ some (.reaper,q) :=
        fun q hx => by cases hx
      cases o with
      | work id so =>
        obtain ⟨x,-,hx⟩ := Option.map_eq_some_iff.mp hs
        cases hx
        exact h.other hother rfl (spared_work h.spared hc)
      | finish id =>
        cases hs
        refine h.other hother rfl fun tag htag id' hid => ?_
        change (s.inUse.erase id).lookup id' = some tag at hid
        rw [AList.lookup_erase_ite] at hid
        split at hid
        · cases hid
        · exact h.spared tag htag id' hid
      | _ => exact absurd allowed (by rintro ⟨⟩)
    | reaper =>
      obtain rfl := (h.alone i left ht).2
      cases o with
      | work | finish => exact absurd allowed (by rintro ⟨⟩)
      | now | removeImage tag =>
        cases hs
        exact h.reaper ht h.spared
      | look now =>
        simp only [reapSystem,reapSem,Option.ite_none_right_eq_some,Option.some.injEq] at hs
        obtain ⟨hperm,he⟩ := hs
        cases he
        exact h.reaper ht (spared_look hperm hc)
      | forget tag =>
        cases hs
        exact h.reaper ht fun t htag => h.spared t (List.mem_of_mem_tail htag)
  | @next _ i k left k' ht ends =>
    cases k with
    | process w =>
      cases ends
      exact h.other (fun _ hx => by cases hx) rfl h.spared
    | reaper =>
      obtain ⟨hnil,rfl⟩ := ends
      have hsel := (h.alone i left ht).2
      change Spared s (update g i (some (.reaper,[])))
      rw [← hnil,hsel]
      exact h.reaper ht h.spared

end

variable {timeout : ℕ} {tag : String} {l : Label ReapKind ReapOp ReapRes}

theorem images_in_use_kept {env : Codecs} {config : ServerConfig} (server : Server)
    {ls : List (Label ReapKind ReapOp ReapRes)} {P P' : ReapPool} {i : ℕ} {k : ReapKind}
    (run : Run (reapSystem env config timeout) (Timely timeout) (reapPool config server) ls P)
    (removes : Step (reapSystem env config timeout) P (.act i k (.removeImage tag) ()) P') :
    ∀ id, P.shared.inUse.lookup id ≠ some tag := by
  have hobeys : Obeys (reapSystem env config timeout) reapDiscipline := reap_obeys
  have start : ∃ g, Tracks reapDiscipline (reapPool config server) g ∧
      Spared (reapPool config server).shared g := by
    refine ⟨update (fun _ => none) 0 (some (.reaper,[])),fun j => ?_,⟨fun j left hj => ?_,?_⟩⟩
    · by_cases hj : j = 0
      · subst hj
        exact ⟨rfl,hobeys .reaper⟩
      · simp [reapPool,update_of_ne hj]
    · rw [update_apply] at hj
      split at hj
      · next h0 =>
        cases hj
        exact ⟨h0,rfl⟩
      · cases hj
    · exact fun _ h => (List.not_mem_nil h).elim
  obtain ⟨⟨g,htracks,hspared⟩,-⟩ := run_invariant hobeys Spared (fun _ => True)
    (fun s g l s' g' h hstep hc => ⟨spared_step h hstep hc,trivial⟩) run start
  obtain ⟨left,w,hg,hallowed,-⟩ := htracks.acting removes
  cases k with
  | process w => exact hallowed.elim
  | reaper =>
    obtain ⟨rest,rfl⟩ := hallowed
    obtain ⟨-,hsel⟩ := hspared.alone i _ hg
    exact hspared.spared tag (hsel ▸ List.mem_cons_self)

def removesTag (tag : String) : Label ReapKind ReapOp ReapRes → Bool
  | .act _ _ (.removeImage t) _ => t == tag
  | _ => false

theorem removesTag_iff (h : removesTag tag l) : ∃ i k, l = .act i k (.removeImage tag) () := by
  unfold removesTag at h
  split at h
  · next i k t r =>
    cases eq_of_beq h
    exact ⟨i,k,rfl⟩
  · cases h

def oldTag : String := "r:a-p-gcc13"

def newTag : String := "r:a-p-gcc14"

def buildOf (id : WorkorderId) (tag : String) : Workorder :=
  ⟨id,"c1",.main,[],[],.default,tag,none,.provisioning,0,0⟩

def watchedServer (imageLastUsed : Table String Time) : Server :=
  { boot .default 0 ∅ emptyDisk [] with
    progressTxs := ((∅ : Table WorkorderId Unit).insert "w1" ()).insert "w2" ()
    imageLastUsed := imageLastUsed }

def lookMoves (now : Time) (images : List (String × Time)) : List (Move ReapKind ReapOracle) :=
  [.act 0 9 { server := { time := now } },.act 0 9 { images := images }]

def recordMoves (i : ℕ) (w : Workorder) (time : Time) : List (Move ReapKind ReapOracle) :=
  .start i (.process w)::List.replicate 4 (.act i 9 { server := { time := time } })

def remover : Move ReapKind ReapOracle := .act 0 9 {}

abbrev SampleRun (cond : Condition ReapKind ReapOp ReapRes ReapState) :
    ReapPool → List (Label ReapKind ReapOp ReapRes) → ReapPool → Prop :=
  Run (reapSystem plainCodecs .default 3600) cond

def timely (timeout : ℕ) (s : ReapState) : Label ReapKind ReapOp ReapRes → Bool
  | .act _ _ (.work _ o) r => (passes o r).all fun tag => !s.selected.contains tag
  | .act _ _ (.look now) _ => s.inUse.entries.all fun e =>
      (s.server.imageLastUsed.lookup e.2).all fun time => decide (now-time ≤ (timeout : ℤ)) ||
        s.server.imageLastUsed.entries.all fun o =>
          imageTupleKey o.1 != imageTupleKey e.2 || o.1 == e.2 || decide (o.2 < time)
  | _ => true

theorem timely_of_check {s : ReapState} (kinds : ℕ → Option ReapKind) (h : timely timeout s l) :
    Timely timeout s kinds l := by
  unfold Timely
  split
  · intro tag hp
    simpa [timely,hp] using h
  · intro id tag time hid htime
    have hall := List.all_eq_true.mp h _ (AList.mem_lookup_iff.mp hid)
    dsimp only at hall
    rw [htime,Option.all_some,Bool.or_eq_true,decide_eq_true_eq] at hall
    refine hall.imp_right fun hg other t ho hk hne => ?_
    simpa [hk,hne] using List.all_eq_true.mp hg _ (AList.mem_lookup_iff.mp ho)
  · trivial

theorem reapPool_free (config : ServerConfig) (server : Server) (i : ℕ) (hi : 10 ≤ i) :
    (reapPool config server).tasks i = none := by
  simp [reapPool,update_of_ne (show i ≠ 0 by omega)]

/-- A long build goes on with the newest image, and the reaper takes the other one. -/
theorem idle_image_removed :
    ∃ ls P i k P', SampleRun (Timely 3600)
        (reapPool .default (watchedServer ((∅ : Table String Time).insert oldTag 0))) ls P ∧
      Step (reapSystem plainCodecs .default 3600) P (.act i k (.removeImage oldTag) ()) P' ∧
      P.shared.inUse.lookup "w2" = some newTag ∧ ∀ id, P.shared.inUse.lookup id ≠ some oldTag := by
  have hc : ∀ (s : ReapState) (kinds : ℕ → Option ReapKind) (l : Label ReapKind ReapOp ReapRes),
      (∀ i, 10 ≤ i → kinds i = none) → timely 3600 s l → Timely 3600 s kinds l :=
    fun _ kinds _ _ h => timely_of_check kinds h
  obtain ⟨ls,P,l,P',run,hstep,-,ht⟩ := exists_step_of_play
    (reapSystem plainCodecs .default 3600) hc
    (recordMoves 2 (buildOf "w2" newTag) 7000++lookMoves 20000 [(newTag,7000),(oldTag,0)])
    remover (reapPool .default (watchedServer ((∅ : Table String Time).insert oldTag 0)))
    (by decide) (reapPool_free _ _)
    (fun P l => removesTag oldTag l && P.shared.inUse.lookup "w2" == some newTag) (by decide)
  obtain ⟨hl,hu⟩ := Bool.and_eq_true_iff.mp ht
  obtain ⟨i,k,rfl⟩ := removesTag_iff hl
  exact ⟨ls,P,i,k,P',run,hstep,eq_of_beq hu,images_in_use_kept _ run hstep⟩

/-- The build with the older image is still going on when its image is removed. -/
theorem image_removed_in_use :
    ∃ ls P i k P', SampleRun unrestricted (reapPool .default (watchedServer ∅)) ls P ∧
      Step (reapSystem plainCodecs .default 3600) P (.act i k (.removeImage oldTag) ()) P' ∧
      P.shared.inUse.lookup "w1" = some oldTag := by
  have hc : ∀ (s : ReapState) (kinds : ℕ → Option ReapKind) (l : Label ReapKind ReapOp ReapRes),
      (∀ i, 10 ≤ i → kinds i = none) → true → unrestricted s kinds l :=
    fun _ _ _ _ _ => trivial
  obtain ⟨ls,P,l,P',run,hstep,-,ht⟩ := exists_step_of_play
    (reapSystem plainCodecs .default 3600) hc
    (recordMoves 1 (buildOf "w1" oldTag) 0++recordMoves 2 (buildOf "w2" newTag) 7000++
      lookMoves 9000 [(newTag,7000),(oldTag,0)])
    remover (reapPool .default (watchedServer ∅)) (by decide) (reapPool_free _ _)
    (fun P l => removesTag oldTag l && P.shared.inUse.lookup "w1" == some oldTag) (by decide)
  obtain ⟨hl,hu⟩ := Bool.and_eq_true_iff.mp ht
  obtain ⟨i,k,rfl⟩ := removesTag_iff hl
  exact ⟨ls,P,i,k,P',run,hstep,eq_of_beq hu⟩

end Remerge.ImagesInUse
