import Remerge.ServerCore

/-!
# Identifiers and the submission lock

Two invariants that hold in every run of the server, whatever is cancelled
when. Workorders are filed under their own identifier, and an identifier that
a submit has drawn but not inserted yet is known to nobody else. At most one
submit is between taking and releasing the submission lock.
-/

set_option autoImplicit false

namespace Remerge.WorkorderIdentity
open Interleaving SnapshotTypes SnapshotCleanup ServerState ServerOps ServerTasks ServerPhases
open ServerCore Function

variable {config : ServerConfig} {c c' : Core} {g g' : Phases} {l : ServerLabel}

def mentions : TaskKind × Phase → Option WorkorderId
  | (.queue,.found w) => some w.id
  | (.queue,.claimed w) => some w.id
  | (.process _,.asking) => none
  | (.process w,_) => some w.id
  | (.cancel id,.mustClear _) => some id
  | _ => none

def reserves : TaskKind × Phase → Option WorkorderId
  | (.submit _,.named id) => some id
  | (.submit _,.locked id) => some id
  | (.submit _,.room id) => some id
  | (.submit _,.admitted id) => some id
  | _ => none

def holdsLock : TaskKind × Phase → Option Unit
  | (.submit _,.locked _) => some ()
  | (.submit _,.room _) => some ()
  | (.submit _,.admitted _) => some ()
  | (.submit _,.inserted _) => some ()
  | (.submit _,.releasing) => some ()
  | _ => none

theorem mentions_rests : RestsIdle mentions := fun k => by cases k <;> rfl
theorem reserves_rests : RestsIdle reserves := fun k => by cases k <;> rfl
theorem holdsLock_rests : RestsIdle holdsLock := fun k => by cases k <;> rfl

structure Identity (c : Core) (g : Phases) : Prop where
  filed : Filed c.workorders c.issued
  known : ∀ i id, roleAt g mentions i = some id → id ∈ c.issued
  reserved : ∀ i id, roleAt g reserves i = some id →
    id ∈ c.issued ∧ c.workorders.lookup id = none ∧ ∀ j, roleAt g mentions j ≠ some id
  once : Exclusive (roleAt g reserves)

structure Locked (c : Core) (g : Phases) : Prop where
  taken : ∀ i, roleAt g holdsLock i = some () → c.submissionLock
  once : Exclusive (roleAt g holdsLock)

section

theorem filed_of_lookup (h : Filed c.workorders c.issued)
    (hi : c'.issued = c.issued)
    (hw : ∀ id w, c'.workorders.lookup id = some w →
      ∃ v, c.workorders.lookup id = some v ∧ w.id = v.id) :
    Filed c'.workorders c'.issued := by
  intro id w hl
  obtain ⟨v,hv,he⟩ := hw id w hl
  rw [hi,he]
  exact h id v hv

variable {id : WorkorderId} {t : Table WorkorderId Workorder} {i : ℕ}

theorem lookup_insert_entry {u v : Workorder} (hl : t.lookup id = some v) (he : u.id = v.id)
    (id' : WorkorderId) (w : Workorder) (h : (t.insert id u).lookup id' = some w) :
    ∃ x, t.lookup id' = some x ∧ w.id = x.id := by
  rw [AList.lookup_insert_ite] at h
  split at h
  · next e => exact ⟨v,e ▸ hl,(Option.some.inj h) ▸ he⟩
  · exact ⟨w,h,rfl⟩

theorem lookup_modify_entry {f : Workorder → Workorder} (hf : ∀ v, (f v).id = v.id)
    (id' : WorkorderId) (w : Workorder) (h : (t.modify id f).lookup id' = some w) :
    ∃ x, t.lookup id' = some x ∧ w.id = x.id := by
  rw [AList.lookup_modify] at h
  split at h
  · next e =>
    obtain ⟨v,hv,rfl⟩ := Option.map_eq_some_iff.mp h
    exact ⟨v,e ▸ hv,hf v⟩
  · exact ⟨w,h,rfl⟩

/-- A step that issues nothing and files nothing new: its task may come to
mention a filed workorder, and nobody reserves what was not reserved. -/
theorem identity_same (h : Identity c g) (hi : c'.issued = c.issued)
    (hw : ∀ id w, c'.workorders.lookup id = some w →
      ∃ v, c.workorders.lookup id = some v ∧ w.id = v.id)
    (hm : ∀ x id, roleAt g' mentions x = some id →
      (∃ j, roleAt g mentions j = some id) ∨ ∃ w, c.workorders.lookup id = some w)
    (hr : ∀ x id, roleAt g' reserves x = some id → roleAt g reserves x = some id) :
    Identity c' g' := by
  refine ⟨filed_of_lookup h.filed hi hw,?_,?_,?_⟩
  · intro x id hx
    rw [hi]
    rcases hm x id hx with ⟨j,hj⟩ | ⟨w,hw⟩
    · exact h.known j id hj
    · exact (h.filed id w hw).2
  · intro x id hx
    obtain ⟨h1,h2,h3⟩ := h.reserved x id (hr x id hx)
    refine ⟨hi ▸ h1,?_,?_⟩
    · cases hl : c'.workorders.lookup id with
      | none => rfl
      | some w =>
        obtain ⟨v,hv,-⟩ := hw id w hl
        rw [h2] at hv
        cases hv
    · intro j hj
      rcases hm j id hj with ⟨j',hj'⟩ | ⟨w,hw⟩
      · exact h3 j' hj'
      · rw [h2] at hw
        cases hw
  · exact h.once.mono hr

theorem identity_newId (h : Identity c g) (fresh : id ∉ c.issued)
    (hm : roleAt g' mentions = update (roleAt g mentions) i none)
    (hr : roleAt g' reserves = update (roleAt g reserves) i (some id)) :
    Identity { c with issued := id::c.issued } g' := by
  have mentioned : ∀ x v, roleAt g' mentions x = some v → v ∈ c.issued := by
    intro x v hx
    rw [hm] at hx
    rcases update_some hx with ⟨-,he⟩ | ⟨-,he⟩
    · cases he
    · exact h.known x v he
  refine ⟨?_,?_,?_,?_⟩
  · intro v w hl
    obtain ⟨h1,h2⟩ := h.filed v w hl
    exact ⟨h1,List.mem_cons_of_mem _ h2⟩
  · intro x v hx
    exact List.mem_cons_of_mem _ (mentioned x v hx)
  · intro x v hx
    rw [hr] at hx
    rcases update_some hx with ⟨-,he⟩ | ⟨-,he⟩
    · cases he
      refine ⟨List.mem_cons_self,?_,fun j hj => fresh (mentioned j id hj)⟩
      cases hl : c.workorders.lookup id with
      | none => rfl
      | some w => exact absurd (h.filed id w hl).2 fresh
    · obtain ⟨h1,h2,h3⟩ := h.reserved x v he
      refine ⟨List.mem_cons_of_mem _ h1,h2,?_⟩
      intro j hj
      rw [hm] at hj
      rcases update_some hj with ⟨-,hf⟩ | ⟨-,hf⟩
      · cases hf
      · exact h3 j hf
  · rw [hr]
    exact h.once.take i id fun j _ hj => fresh (h.reserved j id hj).1

theorem identity_insert {req : SubmitRequest} {w : Workorder} (h : Identity c g)
    (ht : g i = some (.submit req,.admitted w.id))
    (hm : roleAt g' mentions = update (roleAt g mentions) i none)
    (hr : roleAt g' reserves = update (roleAt g reserves) i none) :
    Identity { c with workorders := c.workorders.insert w.id w } g' := by
  have hres : roleAt g reserves i = some w.id := roleAt_some ht reserves
  have mentioned : ∀ x v, roleAt g' mentions x = some v → roleAt g mentions x = some v := by
    intro x v hx
    rw [hm] at hx
    rcases update_some hx with ⟨-,he⟩ | ⟨-,he⟩
    · cases he
    · exact he
  refine ⟨?_,fun x v hx => h.known x v (mentioned x v hx),?_,?_⟩
  · intro v u hl
    change (c.workorders.insert w.id w).lookup v = some u at hl
    rw [AList.lookup_insert_ite] at hl
    split at hl
    · next e =>
      cases hl
      exact ⟨e.symm,e ▸ (h.reserved i w.id hres).1⟩
    · exact h.filed v u hl
  · intro x v hx
    rw [hr] at hx
    rcases update_some hx with ⟨-,he⟩ | ⟨hne,he⟩
    · cases he
    · obtain ⟨h1,h2,h3⟩ := h.reserved x v he
      have hv : v ≠ w.id := fun e => hne (h.once x i v he (e ▸ hres))
      refine ⟨h1,?_,fun j hj => h3 j (mentioned j v hj)⟩
      change (c.workorders.insert w.id w).lookup v = none
      rw [AList.lookup_insert_ite,if_neg hv]
      exact h2
  · rw [hr]
    refine h.once.mono fun x v hx => ?_
    rcases update_some hx with ⟨-,he⟩ | ⟨-,he⟩
    · cases he
    · exact he

theorem identity_step (h : Identity c g) (hs : PhaseStep config c g l c' g') : Identity c' g' := by
  have same : ∀ id w, c.workorders.lookup id = some w →
      ∃ v, c.workorders.lookup id = some v ∧ w.id = v.id := fun id w hl => ⟨w,hl,rfl⟩
  cases hs with
  | turn hx hg hl =>
    exact identity_same h rfl same (fun x id hm => .inl ⟨x,held_turn mentions_rests hx hm⟩)
      (fun x id hr => held_turn reserves_rests hx hr)
  | spawn ht free =>
    rename_i i j w r
    have hw : roleAt g mentions i = some w.id := roleAt_some ht mentions
    refine identity_same h rfl same ?_ ?_
    · intro x id hm
      rcases held_spawn rfl hm with ⟨-,he⟩ | ⟨-,-,he⟩
      · exact .inl ⟨i,he ▸ hw⟩
      · exact .inl ⟨x,he⟩
    · intro x id hr
      rcases held_spawn rfl hr with ⟨-,he⟩ | ⟨-,-,he⟩
      · cases he
      · exact he
  | act ht hs free hx =>
    rename_i i j k q q' o r x
    have hm : roleAt (update (update g i (some (k,q'))) j x) mentions =
      update (roleAt g mentions) i (mentions (k,q')) := roleAt_act mentions_rests ht free hx
    have hr : roleAt (update (update g i (some (k,q'))) j x) reserves =
      update (roleAt g reserves) i (reserves (k,q')) := roleAt_act reserves_rests ht free hx
    have hmi : roleAt g mentions i = mentions (k,q) := roleAt_some ht mentions
    have hri : roleAt g reserves i = reserves (k,q) := roleAt_some ht reserves
    -- All steps but two change no keys; what is left is which roles the task has.
    have quiet : c'.issued = c.issued →
        (∀ id w, c'.workorders.lookup id = some w →
          ∃ v, c.workorders.lookup id = some v ∧ w.id = v.id) →
        (∀ id, mentions (k,q') = some id →
          mentions (k,q) = some id ∨ ∃ w, c.workorders.lookup id = some w) →
        (∀ id, reserves (k,q') = some id → reserves (k,q) = some id) →
        Identity c' (update (update g i (some (k,q'))) j x) := by
      intro hi hw hm' hr'
      refine identity_same h hi hw ?_ ?_
      · intro a id ha
        rcases held_act mentions_rests ht free hx ha with ⟨-,he⟩ | ⟨-,he⟩
        · rcases hm' id he with e | e
          · exact .inl ⟨i,hmi.trans e⟩
          · exact .inr e
        · exact .inl ⟨a,he⟩
      · intro a id ha
        rcases held_act reserves_rests ht free hx ha with ⟨rfl,he⟩ | ⟨-,he⟩
        · exact hri.trans (hr' id he)
        · exact he
    cases hs with
    | plain _ | startWorker => exact quiet rfl same (fun _ e => .inl e) (fun _ e => e)
    | newId fresh => exact identity_newId h fresh hm hr
    | accept hq _ _ =>
      refine quiet rfl same (by simp [mentions]) ?_
      rcases hq with rfl | ⟨rfl,-⟩ <;> simp [reserves]
    | insert _ _ => exact identity_insert h ht hm hr
    | cancelHit hl _ =>
      refine quiet rfl (lookup_insert_entry hl rfl) ?_ (by simp [reserves])
      intro id e
      cases e
      exact .inr ⟨_,hl⟩
    | find hl _ =>
      refine quiet rfl same ?_ (by simp [reserves])
      intro id e
      cases e
      exact .inr ⟨_,(h.filed _ _ hl).1 ▸ hl⟩
    | claimHit hl _ =>
      exact quiet rfl (lookup_insert_entry hl rfl) (fun _ e => .inl e) (by simp [reserves])
    | build =>
      exact quiet rfl (lookup_modify_entry fun _ => rfl) (fun _ e => .inl e) (by simp [reserves])
    | finish hq _ =>
      refine quiet rfl (lookup_modify_entry fun _ => rfl) ?_ (by simp [reserves])
      rcases hq with rfl | rfl <;> exact fun _ e => .inl e
    | endClear => exact quiet rfl same (fun _ e => .inl e) (by simp [reserves])
    | evict he _ =>
      refine quiet rfl ?_ (by simp [mentions]) (by simp [reserves])
      intro id w hl
      rcases he id with e | ⟨e,-⟩
      · exact ⟨w,e ▸ hl,rfl⟩
      · have hn := e.symm.trans hl
        cases hn
    | _ => exact quiet rfl same (by simp [mentions]) (by simp [reserves])

theorem issued_step (hs : PhaseStep config c g l c' g') (h : id ∈ c.issued) : id ∈ c'.issued := by
  cases hs with
  | turn hx hg hl => exact h
  | spawn ht free => exact h
  | act ht hs free hx =>
    cases hs with
    | newId fresh => exact List.mem_cons_of_mem _ h
    | _ => exact h

theorem reserved_step (hs : PhaseStep config c g l c' g') {a : ℕ}
    (h : roleAt g' reserves a = some id) : roleAt g reserves a = some id ∨ id ∉ c.issued := by
  cases hs with
  | turn hx hg hl => exact .inl (held_turn reserves_rests hx h)
  | spawn ht free =>
    rcases held_spawn rfl h with ⟨-,he⟩ | ⟨-,-,he⟩
    · cases he
    · exact .inl he
  | act ht hs free hx =>
    have hri := roleAt_some ht reserves
    rcases held_act reserves_rests ht free hx h with ⟨rfl,he⟩ | ⟨-,he⟩
    · rw [hri]
      cases hs with
      | newId fresh =>
        cases he
        exact .inr fresh
      | accept hq _ _ => rcases hq with rfl | ⟨rfl,-⟩ <;> exact .inl he
      | _ => first | exact .inl he | cases he
    · exact .inl he

end

theorem locked_same (h : Locked c g) (hc : c'.submissionLock = c.submissionLock)
    (hr : ∀ x v, roleAt g' holdsLock x = some v → roleAt g holdsLock x = some v) :
    Locked c' g' :=
  ⟨fun i hi => hc ▸ h.taken i (hr i () hi),h.once.mono hr⟩

theorem locked_step (h : Locked c g) (hs : PhaseStep config c g l c' g') : Locked c' g' := by
  cases hs with
  | turn hx hg hl => exact locked_same h rfl fun x v hr => held_turn holdsLock_rests hx hr
  | spawn ht free =>
    refine locked_same h rfl fun x v hr => ?_
    rcases held_spawn rfl hr with ⟨-,he⟩ | ⟨-,-,he⟩
    · cases he
    · exact he
  | act ht hs free hx =>
    rename_i i j k q q' o r x
    have hi : roleAt g holdsLock i = holdsLock (k,q) := roleAt_some ht holdsLock
    have quiet : c'.submissionLock = c.submissionLock →
        (holdsLock (k,q') = some () → holdsLock (k,q) = some ()) →
        Locked c' (update (update g i (some (k,q'))) j x) := by
      intro hc hq
      refine locked_same h hc fun a v ha => ?_
      rcases held_act holdsLock_rests ht free hx ha with ⟨rfl,he⟩ | ⟨-,he⟩
      · exact hi.trans (hq he)
      · exact he
    cases hs with
    | lock unlocked =>
      refine ⟨fun _ _ => rfl,?_⟩
      rw [roleAt_act holdsLock_rests ht free hx]
      refine h.once.take i () fun a _ ha => ?_
      rw [h.taken a ha] at unlocked
      cases unlocked
    | unlock =>
      rename_i req
      -- The lock is free again, so nobody else may hold it.
      have nobody : ∀ a v, roleAt (update (update g i
          (some (.submit req,.finished))) j x) holdsLock a = some v → False := by
        intro a v ha
        rcases held_act holdsLock_rests ht free hx ha with ⟨-,he⟩ | ⟨hne,he⟩
        · cases he
        · exact hne (h.once a i () he hi)
      exact ⟨fun a ha => (nobody a _ ha).elim,fun a b v ha _ => (nobody a v ha).elim⟩
    | accept hq _ _ =>
      refine quiet rfl fun _ => ?_
      rcases hq with rfl | ⟨rfl,-⟩ <;> rfl
    | refuse hq =>
      refine quiet rfl fun _ => ?_
      rcases hq with rfl | rfl <;> rfl
    | finish hq _ => exact quiet rfl fun he => by cases he
    | plain _ => exact quiet rfl fun he => he
    | _ => exact quiet rfl fun he => by first | rfl | cases he

variable {env : Codecs} {P : ServerPool}

theorem startPhases_role {ν : Type} {role : TaskKind × Phase → Option ν} (h : RestsIdle role)
    (i : ℕ) : roleAt startPhases role i = none := h.idle (startPhases_idle i)

theorem identity_start (h : Started env config P) : Identity (core P.shared) startPhases := by
  obtain ⟨now,store,disk,issued,filed⟩ := h
  refine ⟨?_,?_,?_,?_⟩
  · intro id w hl
    obtain ⟨v,hv,rfl⟩ := lookup_loadWorkorders hl
    exact ⟨(resetInFlight_fields now v).1.trans (filed id v hv).1,(filed id v hv).2⟩
  · intro i id hi
    rw [startPhases_role mentions_rests] at hi
    cases hi
  · intro i id hi
    rw [startPhases_role reserves_rests] at hi
    cases hi
  · intro i j id hi
    rw [startPhases_role reserves_rests] at hi
    cases hi

theorem locked_start (c : Core) : Locked c startPhases := by
  refine ⟨fun i hi => ?_,fun i j v hi => ?_⟩ <;>
  · rw [startPhases_role holdsLock_rests] at hi
    cases hi

end Remerge.WorkorderIdentity
