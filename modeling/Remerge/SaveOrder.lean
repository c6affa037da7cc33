import Remerge.ServerLifetimes
import Remerge.ServiceStages

/-!
# The order in which copies of the map reach the disk

Submits, status changes and the periodic saver each copy the workorder map
and later rename a file with the copy into place. A clock beside the run notes
when each copy was taken and from which moment the file on disk is. The file
always shows the map as it was at that moment; the moments go forward as long
as nobody takes a copy while another task has one that is not written yet.
-/

set_option autoImplicit false

namespace Remerge.SaveOrder
open StepProgram Interleaving SnapshotTypes SnapshotStore SnapshotRuntime SnapshotCleanup
open ServerState ServerOps ServerTasks ServerCore ServerLifetimes ServerDataFlow ServiceStages
open Function

/-- The map at every moment so far, the moment of each task's copy that is not
written yet, and the moment the file on disk shows, if this server wrote it. -/
structure Clock where
  now : ℕ
  maps : ℕ → Table WorkorderId Workorder
  taken : ℕ → Option ℕ
  held : Option ℕ

def Clock.zero : Clock := ⟨0,fun _ => ∅,fun _ => none,none⟩

def Clock.tick (c : Clock) (s : Server) : Clock :=
  { c with now := c.now+1, maps := update c.maps c.now s.workorders }

def takesCopy : ServerOp → Bool
  | .readWorkorders | .lockWorkordersRead => true
  | _ => false

def savesCopy : ServerOp → Bool
  | .saveWorkorders _ => true
  | _ => false

/-- How the clock follows one step. A save replaces the file or fails. -/
inductive Tick (s s' : Server) (c : Clock) : ServerLabel → Clock → Prop where
  | copy {i : ℕ} {k : TaskKind} {o : ServerOp} {r : ServerRes o} (h : takesCopy o) :
      Tick s s' c (.act i k o r)
        { c.tick s with taken := update c.taken i (some c.now) }
  | replace {i : ℕ} {k : TaskKind} {m : Table WorkorderId Workorder} {r : Unit}
      (h : s'.disk.workorders = some m) :
      Tick s s' c (.act i k (.saveWorkorders m) r)
        { c.tick s with taken := update c.taken i none, held := c.taken i }
  | fail {i : ℕ} {k : TaskKind} {m : Table WorkorderId Workorder} {r : Unit}
      (h : s'.disk.workorders = s.disk.workorders) :
      Tick s s' c (.act i k (.saveWorkorders m) r)
        { c.tick s with taken := update c.taken i none }
  | other {l : ServerLabel}
      (h : ∀ i k o r, l = .act i k o r → takesCopy o = false ∧ savesCopy o = false) :
      Tick s s' c l (c.tick s)

inductive Timed (env : Codecs) (config : ServerConfig) (guard : Clock → ServerLabel → Prop) :
    ServerPool → Clock → ServerPool → Clock → Prop where
  | refl (P : ServerPool) (c : Clock) : Timed env config guard P c P c
  | cons {P P' P'' : ServerPool} {c c' c'' : Clock} {l : ServerLabel}
      (h : Step (serverSystem env config) P l P') (ht : Tick P.shared P'.shared c l c')
      (hg : guard c l) (rest : Timed env config guard P' c' P'' c'') :
      Timed env config guard P c P'' c''

/-- Nobody takes a copy while another task has one that is not written yet. -/
def oneCopyOut (c : Clock) : ServerLabel → Prop
  | .act i _ o _ => takesCopy o → ∀ j, j ≠ i → c.taken j = none
  | _ => True

abbrev copying (config : ServerConfig) : Discipline TaskKind ServerOp ServerRes (Post × Seen) :=
  (stages config).both (watch config)

abbrev Copies : Type := Ghost TaskKind (Post × Seen)

abbrev CopyingStep (env : Codecs) (config : ServerConfig) :=
  GhostStep (serverSystem env config) (copying config)

structure Chronicle (s : Server) (g : Copies) (c : Clock) : Prop where
  out : ∀ i t, c.taken i = some t → t < c.now ∧ ∃ k q, g i = some (k,q) ∧ q.2.copy = some (c.maps t)
  holds : ∀ i k q, g i = some (k,q) → q.1.holds = (c.taken i).isSome
  file : ∀ t, c.held = some t → t < c.now ∧ s.disk.workorders = some (c.maps t)

section
variable {env : Codecs} {config : ServerConfig} {s s' : Server} {g g' : Copies} {l : ServerLabel}
  {c c' : Clock}

theorem maps_tick {t : ℕ} (h : t < c.now) : (c.tick s).maps t = c.maps t :=
  update_of_ne (by omega) _ _

theorem Chronicle.settled (config : ServerConfig) (hC : Chronicle s g c) {i : ℕ}
    (h : g i = none ∨ ∃ k q k', g i = some (k,q) ∧ (copying config).final k q k') :
    c.taken i = none := by
  cases ht : c.taken i with
  | none => rfl
  | some t =>
    obtain ⟨-,k,q,hg,-⟩ := hC.out i t ht
    rcases h with h | ⟨k1,q1,k',h,hf⟩
    · rw [h] at hg
      cases hg
    · have hholds := hC.holds i k1 q1 h
      rw [ht,hf.1.2] at hholds
      cases hholds

theorem Chronicle.out_tick (hC : Chronicle s g c) (h : CopyingStep env config s g l s' g') {a t : ℕ}
    (ht : c.taken a = some t) (hl : ∀ k o r, l = .act a k o r → takesCopy o = false) :
    t < c.now+1 ∧ ∃ k q, g' a = some (k,q) ∧ q.2.copy = some ((c.tick s).maps t) := by
  obtain ⟨lt,k,q,hg,hcopy⟩ := hC.out a t ht
  refine ⟨Nat.lt_succ_of_lt lt,?_⟩
  rw [maps_tick lt]
  by_cases hact : ∃ k o r, l = .act a k o r
  · obtain ⟨k1,o,r,rfl⟩ := hact
    obtain ⟨q1,w,hg1,-,-,hnext,-⟩ := h.acted
    cases hg.symm.trans hg1
    refine ⟨_,_,hnext,?_⟩
    have hn := hl k o r rfl
    change (watchNext config k q.2 o r).copy = _
    cases o <;> first | exact hcopy | cases hn
  · refine ⟨k,q,h.kept hg (fun k o r e => hact ⟨k,o,r,e⟩) ?_,hcopy⟩
    rintro k1 k' rfl
    cases h with
    | next hg1 ends =>
      rw [hC.settled config (.inr ⟨_,_,_,hg1,ends⟩)] at ht
      cases ht

theorem disk_kept (h : CopyingStep env config s g l s' g')
    (hl : ∀ i k o r, l = .act i k o r → savesCopy o = false) :
    s'.disk.workorders = s.disk.workorders := by
  cases h with
  | start hk free => rfl
  | next ht ends => rfl
  | act ht allowed hs free =>
    refine (frame_of_sem hs).files fun m e => ?_
    have hn := hl _ _ _ _ rfl
    rw [e] at hn
    cases hn

theorem Chronicle.holds_kept (hC : Chronicle s g c)
    (h : CopyingStep env config s g l s' g') {taken : ℕ → Option ℕ}
    (others : ∀ a, (∀ k o r, l ≠ .act a k o r) → taken a = c.taken a)
    (own : ∀ a k o r, l = .act a k o r → holdsNext (c.taken a).isSome o = (taken a).isSome)
    (a : ℕ) (k : TaskKind) (q : Post × Seen) (ha : g' a = some (k,q)) :
    q.1.holds = (taken a).isSome := by
  rcases h.origin ha with ⟨k',e,hact,hg⟩ | ⟨k1,q1,o,r,hl,hg,e⟩ | ⟨hg,hact⟩
  · have hnone : c.taken a = none := by
      refine hC.settled config ?_
      rcases hg with hg | ⟨k1,q1,hg,hf⟩
      · exact .inl hg
      · exact .inr ⟨k1,q1,_,hg,hf⟩
    cases e
    rw [others a hact,hnone]
    rfl
  · cases e
    rw [← own a k o r hl,← hC.holds a k q1 hg]
    rfl
  · rw [others a hact]
    exact hC.holds a k q hg

theorem chronicle_other (hC : Chronicle s g c) (h : CopyingStep env config s g l s' g')
    (hl : ∀ i k o r, l = .act i k o r → takesCopy o = false ∧ savesCopy o = false) :
    Chronicle s' g' (c.tick s) := by
  refine ⟨fun a t ht => ?_,hC.holds_kept h (fun _ _ => rfl) ?_,fun t ht => ?_⟩
  · exact hC.out_tick h ht fun k o r e => (hl a k o r e).1
  · intro a k o r e
    obtain ⟨h1,h2⟩ := hl a k o r e
    cases o with
    | readWorkorders | lockWorkordersRead => cases h1
    | saveWorkorders _ => cases h2
    | _ => rfl
  · obtain ⟨lt,hd⟩ := hC.file t ht
    refine ⟨Nat.lt_succ_of_lt lt,?_⟩
    rw [maps_tick lt,disk_kept h fun i k o r e => (hl i k o r e).2]
    exact hd

section
variable {i : ℕ} {k : TaskKind}

theorem chronicle_copy {o : ServerOp} {r : ServerRes o} (hC : Chronicle s g c)
    (h : CopyingStep env config s g (.act i k o r) s' g') (hcopy : takesCopy o) :
    Chronicle s' g' { c.tick s with taken := update c.taken i (some c.now) } := by
  have own : ∀ a k1 o1 r1, (.act i k o r : ServerLabel) = .act a k1 o1 r1 → a = i ∧ o1 = o :=
    fun a k1 o1 r1 e => by cases e; exact ⟨rfl,rfl⟩
  refine ⟨fun a t ht => ?_,hC.holds_kept h ?_ ?_,fun t ht => ?_⟩
  · rcases update_some ht with ⟨rfl,e⟩ | ⟨hne,e⟩
    · cases e
      obtain ⟨q,w,hg,-,hs,hnext,-⟩ := h.acted
      refine ⟨Nat.lt_succ_self _,_,_,hnext,?_⟩
      change (watchNext config k q.2 o r).copy = some (update c.maps c.now s.workorders c.now)
      rw [update_self]
      cases o with
      | readWorkorders | lockWorkordersRead =>
        cases hs
        rfl
      | _ => cases hcopy
    · exact hC.out_tick h e fun k1 o1 r1 e1 => absurd (own a k1 o1 r1 e1).1 hne
  · intro a hact
    exact update_of_ne (fun e => hact k o r (by rw [e])) _ _
  · intro a k1 o1 r1 e
    obtain ⟨rfl,rfl⟩ := own a k1 o1 r1 e
    change holdsNext _ _ = (update c.taken a _ a).isSome
    rw [update_self]
    cases o1 <;> first | rfl | cases hcopy
  · obtain ⟨lt,hd⟩ := hC.file t ht
    refine ⟨Nat.lt_succ_of_lt lt,?_⟩
    change s'.disk.workorders = some ((c.tick s).maps t)
    rw [maps_tick lt,disk_kept h]
    · exact hd
    · intro a k1 o1 r1 e
      obtain ⟨-,rfl⟩ := own a k1 o1 r1 e
      cases o1 <;> first | rfl | cases hcopy

variable {r : Unit} {m : Table WorkorderId Workorder}

theorem Chronicle.saved (hC : Chronicle s g c)
    (h : CopyingStep env config s g (.act i k (.saveWorkorders m) r)
      s' g') : ∃ t, c.taken i = some t ∧ m = c.maps t := by
  obtain ⟨q,w,hg,allowed,-⟩ := h.acted
  have hholds : q.1.holds := allowed.1.2 m rfl
  rw [hC.holds i k q hg] at hholds
  obtain ⟨t,ht⟩ := Option.isSome_iff_exists.mp hholds
  obtain ⟨-,k1,q1,hg1,hcopy⟩ := hC.out i t ht
  cases hg.symm.trans hg1
  have hm : q.2.copy = some m := allowed.2
  exact ⟨t,ht,Option.some.inj (hm.symm.trans hcopy)⟩

theorem chronicle_save {held : Option ℕ}
    (hC : Chronicle s g c) (h : CopyingStep env config s g (.act i k (.saveWorkorders m) r) s' g')
    (file : ∀ t, held = some t → t < c.now ∧ s'.disk.workorders = some (c.maps t)) :
    Chronicle s' g' { c.tick s with taken := update c.taken i none, held := held } := by
  have own : ∀ a k1 o1 r1, (.act i k (.saveWorkorders m) r : ServerLabel) = .act a k1 o1 r1 →
      a = i ∧ o1 = .saveWorkorders m := fun a k1 o1 r1 e => by cases e; exact ⟨rfl,rfl⟩
  refine ⟨fun a t ht => ?_,hC.holds_kept h ?_ ?_,fun t ht => ?_⟩
  · rcases update_some ht with ⟨rfl,e⟩ | ⟨hne,e⟩
    · cases e
    · exact hC.out_tick h e fun k1 o1 r1 e1 => absurd (own a k1 o1 r1 e1).1 hne
  · intro a hact
    exact update_of_ne (fun e => hact k _ r (by rw [e])) _ _
  · intro a k1 o1 r1 e
    obtain ⟨rfl,rfl⟩ := own a k1 o1 r1 e
    change false = (update c.taken a _ a).isSome
    rw [update_self]
    rfl
  · obtain ⟨lt,hd⟩ := file t ht
    refine ⟨Nat.lt_succ_of_lt lt,?_⟩
    change s'.disk.workorders = some ((c.tick s).maps t)
    rw [maps_tick lt]
    exact hd

end

theorem chronicle_step (hC : Chronicle s g c) (h : CopyingStep env config s g l s' g')
    (ht : Tick s s' c l c') : Chronicle s' g' c' := by
  cases ht with
  | other hl => exact chronicle_other hC h hl
  | copy hcopy => exact chronicle_copy hC h hcopy
  | replace hd =>
    refine chronicle_save hC h fun t ht => ?_
    obtain ⟨t1,ht1,rfl⟩ := hC.saved h
    cases ht.symm.trans ht1
    exact ⟨(hC.out _ t ht).1,hd⟩
  | fail hd =>
    refine chronicle_save hC h fun t ht => ?_
    rw [hd]
    exact hC.file t ht

structure Ordered (c : Clock) : Prop where
  single : ∀ i j t t', c.taken i = some t → c.taken j = some t' → i = j
  order : ∀ i t t', c.taken i = some t → c.held = some t' → t' ≤ t

theorem ordered_step (hC : Chronicle s g c) (hO : Ordered c)
    (h : CopyingStep env config s g l s' g') (ht : Tick s s' c l c') (hg : oneCopyOut c l) :
    Ordered c' ∧ ∀ t, c.held = some t → ∃ t', c'.held = some t' ∧ t ≤ t' := by
  cases ht with
  | other hl => exact ⟨⟨hO.single,hO.order⟩,fun t e => ⟨t,e,le_rfl⟩⟩
  | copy hcopy =>
    rename_i i k o r
    -- Whoever has a copy after this step is the task that took it.
    have mine : ∀ a t, update c.taken i (some c.now) a = some t → a = i ∧ t = c.now := by
      intro a t e
      rcases update_some e with ⟨ha,e⟩ | ⟨hne,e⟩
      · exact ⟨ha,(Option.some.inj e).symm⟩
      · rw [hg hcopy a hne] at e
        cases e
    refine ⟨⟨fun a b t t' ea eb => (mine a t ea).1.trans (mine b t' eb).1.symm,
      fun a t t' ea e => ?_⟩,fun t e => ⟨t,e,le_rfl⟩⟩
    rw [(mine a t ea).2]
    exact Nat.le_of_lt (hC.file t' e).1
  | replace hd =>
    rename_i i k m r
    obtain ⟨t1,ht1,-⟩ := hC.saved h
    have nobody : ∀ a t, update c.taken i none a ≠ some t := by
      intro a t e
      rcases update_some e with ⟨-,e⟩ | ⟨hne,e⟩
      · cases e
      · exact hne (hO.single a i t t1 e ht1)
    exact ⟨⟨fun a _ t _ ea _ => absurd ea (nobody a t),fun a t _ ea _ => absurd ea (nobody a t)⟩,
      fun t e => ⟨t1,ht1,hO.order i t1 t ht1 e⟩⟩
  | fail hd =>
    rename_i i k m r
    have older : ∀ a t, update c.taken i none a = some t → c.taken a = some t := by
      intro a t e
      rcases update_some e with ⟨-,e⟩ | ⟨-,e⟩
      · cases e
      · exact e
    exact ⟨⟨fun a b t t' ea eb => hO.single a b t t' (older a t ea) (older b t' eb),
      fun a t t' ea e => hO.order a t t' (older a t ea) e⟩,fun t e => ⟨t,e,le_rfl⟩⟩

end

section
variable {env : Codecs} {config : ServerConfig} {guard : Clock → ServerLabel → Prop}
  {P P1 P2 : ServerPool} {c c1 c2 : Clock}

theorem copying_obeyed (env : Codecs) (config : ServerConfig) :
    Obeys (serverSystem env config) (copying config) :=
  (stages_obeyed env config).both (watch_obeyed env config)

theorem chronicle_timed (h : Timed env config guard P c P1 c1)
    (first : ∃ g, Tracks (copying config) P g ∧ Chronicle P.shared g c) :
    ∃ g, Tracks (copying config) P1 g ∧ Chronicle P1.shared g c1 := by
  induction h with
  | refl P c => exact first
  | cons hs ht hg _ ih =>
    obtain ⟨g,tracks,hC⟩ := first
    obtain ⟨g',hstep,tracks'⟩ := tracks.step (copying_obeyed env config) hs
    exact ih ⟨g',tracks',chronicle_step hC hstep ht⟩

theorem ordered_timed (h : Timed env config oneCopyOut P c P1 c1)
    (first : ∃ g, Tracks (copying config) P g ∧ Chronicle P.shared g c) (hO : Ordered c) :
    Ordered c1 ∧ ∀ t, c.held = some t → ∃ t', c1.held = some t' ∧ t ≤ t' := by
  induction h with
  | refl P c => exact ⟨hO,fun t e => ⟨t,e,le_rfl⟩⟩
  | cons hs ht hg _ ih =>
    obtain ⟨g,tracks,hC⟩ := first
    obtain ⟨g',hstep,tracks'⟩ := tracks.step (copying_obeyed env config) hs
    obtain ⟨hO',forward⟩ := ordered_step hC hO hstep ht hg
    obtain ⟨hO'',rest⟩ := ih ⟨g',tracks',chronicle_step hC hstep ht⟩ hO'
    refine ⟨hO'',fun t e => ?_⟩
    obtain ⟨t1,e1,le1⟩ := forward t e
    obtain ⟨t2,e2,le2⟩ := rest t1 e1
    exact ⟨t2,e2,le1.trans le2⟩

theorem chronicle_start (start : Started env config P) :
    ∃ g, Tracks (copying config) P g ∧ Chronicle P.shared g .zero := by
  obtain ⟨now,store,disk,issued,-⟩ := start
  refine ⟨fun i => (backgroundKind i).map (copying config).task,fun i => ?_,?_,?_,?_⟩
  · unfold startPool
    match i with
    | 0 => exact ⟨rfl,copying_obeyed env config .queue⟩
    | 1 => exact ⟨rfl,copying_obeyed env config .evict⟩
    | 2 => exact ⟨rfl,copying_obeyed env config .save⟩
    | n+3 => trivial
  · intro i t e
    cases e
  · intro i k q e
    obtain ⟨k1,-,he⟩ := Option.map_eq_some_iff.mp e
    cases he
    rfl
  · intro t e
    cases e

theorem ordered_zero : Ordered .zero := by
  constructor <;> intro a b c <;> nofun

/-- If the file shows the map of one moment, it later shows the map of the same
or a later one. -/
theorem saved_history_forward {t1 t2 : ℕ} (start : Started env config P)
    (before : Timed env config oneCopyOut P .zero P1 c1)
    (after : Timed env config oneCopyOut P1 c1 P2 c2)
    (h1 : c1.held = some t1) (h2 : c2.held = some t2) :
    P1.shared.disk.workorders = some (c1.maps t1) ∧
      P2.shared.disk.workorders = some (c2.maps t2) ∧ t1 ≤ t2 := by
  obtain ⟨g1,tracks1,hC1⟩ := chronicle_timed before (chronicle_start start)
  obtain ⟨g2,-,hC2⟩ := chronicle_timed after ⟨g1,tracks1,hC1⟩
  obtain ⟨hO,-⟩ := ordered_timed before (chronicle_start start) ordered_zero
  obtain ⟨-,forward⟩ := ordered_timed after ⟨g1,tracks1,hC1⟩ hO
  obtain ⟨t,e,le⟩ := forward t1 h1
  cases h2.symm.trans e
  exact ⟨(hC1.file t1 h1).2,(hC2.file t2 h2).2,le⟩

end

variable {env : Codecs} {config : ServerConfig} {P P1 : ServerPool} {c c1 : Clock}

def failedMove : Move TaskKind ServerOracle → Bool
  | .act _ _ w => w.error.isSome
  | _ => false

def Clock.follow (c : Clock) (s : Server) (failed : Bool) : ServerLabel → Clock
  | .act i _ o _ =>
    if takesCopy o then { c.tick s with taken := update c.taken i (some c.now) }
    else if savesCopy o then
      if failed then { c.tick s with taken := update c.taken i none }
      else { c.tick s with taken := update c.taken i none, held := c.taken i }
    else c.tick s
  | _ => c.tick s

def timedPlay (env : Codecs) (config : ServerConfig) (check : Clock → ServerLabel → Bool) :
    List (Move TaskKind ServerOracle) → ServerPool → Clock → Option (ServerPool × Clock)
  | [], P, c => some (P,c)
  | m::ms, P, c =>
    match m.apply (serverSystem env config) P with
    | none => none
    | some (l,P') =>
      if check c l then timedPlay env config check ms P' (c.follow P.shared (failedMove m) l)
      else none

variable {s : Server} {m : Move TaskKind ServerOracle} {l : ServerLabel} {j : ℕ}
  {check : Clock → ServerLabel → Bool} {guard : Clock → ServerLabel → Prop}

theorem tick_of_sem {i : ℕ} {k : TaskKind} {o : ServerOp} {r : ServerRes o} {w : ServerOracle}
    {s' : Server} (hs : serverSem env config o w s = some (s',r)) :
    Tick s s' c (.act i k o r) (c.follow s w.error.isSome (.act i k o r)) := by
  cases o with
  | readWorkorders | lockWorkordersRead => exact .copy rfl
  | saveWorkorders m =>
    cases hs
    cases he : w.error with
    | none => exact .replace (by simp)
    | some e => exact .fail (by simp)
  | _ =>
    refine .other fun a k1 o1 r1 e => ?_
    cases e
    exact ⟨rfl,rfl⟩

theorem tick_of_apply (h : m.apply (serverSystem env config) P = some (l,P1)) :
    Tick P.shared P1.shared c l (c.follow P.shared (failedMove m) l) := by
  cases m with
  | start j k =>
    simp only [Move.apply,Option.ite_none_right_eq_some,Option.some.injEq] at h
    cases h.2
    exact .other (by simp)
  | act i j w =>
    simp only [Move.apply] at h
    split at h
    · simp only [Option.ite_none_right_eq_some,Option.map_eq_some_iff] at h
      obtain ⟨-,⟨s',r⟩,hs,he⟩ := h
      cases he
      exact tick_of_sem hs
    · cases h
  | next i =>
    simp only [Move.apply] at h
    split at h
    · cases h
      exact .other (by simp)
    · cases h

theorem follow_taken {failed : Bool} (h : ∀ k o r, l ≠ .act j k o r) :
    (c.follow s failed l).taken j = c.taken j := by
  cases l with
  | start i k => rfl
  | next i k k' => rfl
  | act i k o r =>
    have hne : j ≠ i := by
      rintro rfl
      exact h k o r rfl
    cases hcopy : takesCopy o <;> cases hsave : savesCopy o <;> cases failed <;>
      simp [Clock.follow,Clock.tick,hcopy,hsave,update_of_ne hne]

theorem label_below {n : ℕ} (hm : m.below n)
    (h : m.apply (serverSystem env config) P = some (l,P1)) (hj : n ≤ j) (k : TaskKind)
    (o : ServerOp) (r : ServerRes o) : l ≠ .act j k o r := by
  rintro rfl
  cases m with
  | start i k1 =>
    simp only [Move.apply,Option.ite_none_right_eq_some,Option.some.injEq] at h
    cases h.2
  | act i j1 w =>
    have hb : i < n ∧ j1 < n := by simpa [Move.below] using hm
    simp only [Move.apply] at h
    split at h
    · simp only [Option.ite_none_right_eq_some,Option.map_eq_some_iff] at h
      obtain ⟨-,⟨s',r⟩,-,he⟩ := h
      cases he
      omega
    · cases h
  | next i =>
    simp only [Move.apply] at h
    split at h <;> cases h

theorem timed_of_play (hc : ∀ c l, (∀ j, 10 ≤ j → c.taken j = none) → check c l → guard c l)
    (ms : List (Move TaskKind ServerOracle)) (hm : ms.all (Move.below 10))
    (high : ∀ j, 10 ≤ j → c.taken j = none) (h : timedPlay env config check ms P c = some (P1,c1)) :
    Timed env config guard P c P1 c1 ∧ ∀ j, 10 ≤ j → c1.taken j = none := by
  induction ms generalizing P c with
  | nil =>
    cases h
    exact ⟨.refl _ _,high⟩
  | cons m ms ih =>
    simp only [List.all_cons,Bool.and_eq_true] at hm
    simp only [timedPlay] at h
    split at h
    · cases h
    · next l P' h1 =>
      simp only [Option.ite_none_right_eq_some] at h
      have high' : ∀ j, 10 ≤ j → (c.follow P.shared (failedMove m) l).taken j = none :=
        fun j hj => (follow_taken (label_below hm.1 h1 hj)).trans (high j hj)
      obtain ⟨rest,hrest⟩ := ih hm.2 high' h.2
      exact ⟨.cons (step_of_apply h1) (tick_of_apply h1) (hc c l high h.1) rest,hrest⟩

theorem exists_timed_of_play (env : Codecs) (config : ServerConfig)
    (hc : ∀ c l, (∀ j, 10 ≤ j → c.taken j = none) → check c l → guard c l)
    (ms ms' : List (Move TaskKind ServerOracle)) (P : ServerPool)
    (hm : ms.all (Move.below 10)) (hm' : ms'.all (Move.below 10))
    (test : ServerPool × Clock → ServerPool × Clock → Bool)
    (h : (timedPlay env config check ms P .zero).any (fun r =>
      (timedPlay env config check ms' r.1 r.2).any (test r))) :
    ∃ P1 c1 P2 c2, Timed env config guard P .zero P1 c1 ∧ Timed env config guard P1 c1 P2 c2 ∧
      test (P1,c1) (P2,c2) := by
  obtain ⟨⟨P1,c1⟩,h1,h⟩ := (Option.any_eq_true _ _).mp h
  obtain ⟨⟨P2,c2⟩,h2,ht⟩ := (Option.any_eq_true _ _).mp h
  obtain ⟨before,high⟩ := timed_of_play hc ms hm (fun _ _ => rfl) h1
  exact ⟨P1,c1,P2,c2,before,(timed_of_play hc ms' hm' high h2).1,ht⟩

def oneCopyCheck (c : Clock) : ServerLabel → Bool
  | .act i _ o _ => !takesCopy o || (List.range 10).all fun j => j == i || (c.taken j).isNone
  | _ => true

theorem oneCopyOut_of_check (c : Clock) (l : ServerLabel)
    (high : ∀ j, 10 ≤ j → c.taken j = none) (h : oneCopyCheck c l) : oneCopyOut c l := by
  cases l with
  | act i k o r =>
    intro hcopy j hne
    by_cases hj : j < 10
    · rw [oneCopyCheck,hcopy,Bool.not_true,Bool.false_or] at h
      have hc := List.all_eq_true.mp h j (List.mem_range.mpr hj)
      rw [beq_false_of_ne hne,Bool.false_or] at hc
      exact Option.isNone_iff_eq_none.mp hc
    · exact high j (by omega)
  | _ => trivial

/-- A submit saves the map and the periodic saver saves it again. -/
theorem saved_history_forward_twice :
    ∃ P1 c1 P2 c2 t1 t2,
      Timed plainCodecs .default oneCopyOut
        (freshPool plainCodecs .default) .zero P1 c1 ∧
      Timed plainCodecs .default oneCopyOut P1 c1 P2 c2 ∧
      c1.held = some t1 ∧ c2.held = some t2 ∧ t1 ≤ t2 := by
  obtain ⟨P1,c1,P2,c2,before,after,h⟩ := exists_timed_of_play plainCodecs .default
    oneCopyOut_of_check (submitMoves 3 "c1" "w1") (acts 4 2 9 "w1") (freshPool plainCodecs .default)
    (by decide) (by decide) (fun r r' => r.2.held.isSome && r'.2.held.isSome)
    (by decide)
  rw [Bool.and_eq_true] at h
  obtain ⟨t1,h1⟩ := Option.isSome_iff_exists.mp h.1
  obtain ⟨t2,h2⟩ := Option.isSome_iff_exists.mp h.2
  exact ⟨P1,c1,P2,c2,t1,t2,before,after,h1,h2,(saved_history_forward
    (started_fresh plainCodecs .default) before after h1 h2).2.2⟩

def unguarded (_ : Clock) (_ : ServerLabel) : Prop := True

def anyCopy (_ : Clock) (_ : ServerLabel) : Bool := true

theorem unguarded_of_anyCopy (c : Clock) (l : ServerLabel)
    (_ : ∀ j, 10 ≤ j → c.taken j = none) (_ : anyCopy c l) : unguarded c l := trivial

def onFile (id : WorkorderId) (s : Server) : Bool :=
  s.disk.workorders.any fun t => (t.lookup id).isSome

/-- The periodic saver copies an empty map, a submit lists and saves a
workorder, and the saver's rename then takes it off the disk again. -/
theorem saved_history_backward :
    ∃ P1 c1 P2 c2 t1 t2,
      Timed plainCodecs .default unguarded
        (freshPool plainCodecs .default) .zero P1 c1 ∧
      Timed plainCodecs .default unguarded P1 c1 P2 c2 ∧
      c1.held = some t1 ∧ c2.held = some t2 ∧ t2 < t1 ∧
      onFile "w1" P1.shared ∧ onFile "w1" P2.shared = false := by
  obtain ⟨P1,c1,P2,c2,before,after,h⟩ := exists_timed_of_play plainCodecs .default
    unguarded_of_anyCopy (acts 3 2 9 "w1" ++ submitMoves 3 "c1" "w1") (acts 1 2 9 "w1")
    (freshPool plainCodecs .default) (by decide) (by decide)
    (fun r r' => r.2.held == some 15 && (r'.2.held == some 2 &&
      (onFile "w1" r.1.shared && !onFile "w1" r'.1.shared))) (by decide)
  simp only [Bool.and_eq_true,beq_iff_eq,Bool.not_eq_true'] at h
  exact ⟨P1,c1,P2,c2,15,2,before,after,h.1,h.2.1,by decide,h.2.2⟩

end Remerge.SaveOrder
