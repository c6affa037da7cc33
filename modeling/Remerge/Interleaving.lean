import Remerge.StepProgram

/-!
# Interleaved tasks over one shared state

A system runs any number of tasks. A task has a kind and the rest of its
program; a step executes the first operation of one task on the shared state.
A program ends by naming the kind the task continues with, or none. Tasks are
started from outside or spawned by an operation.

Invariants are not proved over program trees. Each kind is watched by a
monitor, and `run_invariant` carries a property of the shared state and the
monitor states along every run in which all programs conform.
-/

set_option autoImplicit false

namespace Remerge.Interleaving
open StepProgram Function

structure System (K Op : Type) (Res : Op → Type) (St Or : Type) where
  sem : Sem Op Res St Or
  body : K → Prog Op Res (Option K)
  spawns : Op → Option K
  starts : K → Bool

structure Task (K Op : Type) (Res : Op → Type) where
  kind : K
  prog : Prog Op Res (Option K)

structure Pool (K Op : Type) (Res : Op → Type) (St : Type) where
  shared : St
  tasks : ℕ → Option (Task K Op Res)

inductive Label (K Op : Type) (Res : Op → Type) where
  | start (i : ℕ) (k : K)
  | act (i : ℕ) (k : K) (o : Op) (r : Res o)
  | next (i : ℕ) (k : K) (k' : Option K)

variable {K Op : Type} {Res : Op → Type} {St Or Q : Type}

def Pool.kinds (P : Pool K Op Res St) (i : ℕ) : Option K := (P.tasks i).map Task.kind

def System.task (sys : System K Op Res St Or) (k : K) : Task K Op Res := ⟨k,sys.body k⟩

def System.spawn (sys : System K Op Res St Or) (o : Op) (j : ℕ)
    (tasks : ℕ → Option (Task K Op Res)) : ℕ → Option (Task K Op Res) :=
  match sys.spawns o with
  | none => tasks
  | some k => update tasks j (some (sys.task k))

inductive Step (sys : System K Op Res St Or) :
    Pool K Op Res St → Label K Op Res → Pool K Op Res St → Prop where
  | start {P : Pool K Op Res St} {k : K} {j : ℕ} (hk : sys.starts k)
      (free : P.tasks j = none) :
      Step sys P (.start j k) ⟨P.shared,update P.tasks j (some (sys.task k))⟩
  | act {P : Pool K Op Res St} {i j : ℕ} {k : K} {o : Op} {next : Res o → Prog Op Res (Option K)}
      {w : Or} {s' : St} {r : Res o} (ht : P.tasks i = some ⟨k,.step o next⟩)
      (hs : sys.sem o w P.shared = some (s',r)) (free : P.tasks j = none) :
      Step sys P (.act i k o r) ⟨s',sys.spawn o j (update P.tasks i (some ⟨k,next r⟩))⟩
  | next {P : Pool K Op Res St} {i : ℕ} {k : K} {k' : Option K}
      (ht : P.tasks i = some ⟨k,.ret k'⟩) :
      Step sys P (.next i k k') ⟨P.shared,update P.tasks i (k'.map sys.task)⟩

/-- What may be asked of a step, judged from the state before it. -/
abbrev Condition (K Op : Type) (Res : Op → Type) (St : Type) : Type :=
  St → (ℕ → Option K) → Label K Op Res → Prop

def unrestricted : Condition K Op Res St := fun _ _ _ => True

inductive Run (sys : System K Op Res St Or) (cond : Condition K Op Res St) :
    Pool K Op Res St → List (Label K Op Res) → Pool K Op Res St → Prop where
  | refl (P : Pool K Op Res St) : Run sys cond P [] P
  | cons {P P' P'' : Pool K Op Res St} {l : Label K Op Res} {ls : List (Label K Op Res)}
      (h : Step sys P l P') (hc : cond P.shared P.kinds l) (rest : Run sys cond P' ls P'') :
      Run sys cond P (l::ls) P''

variable {sys : System K Op Res St Or} {cond : Condition K Op Res St} {P P' : Pool K Op Res St}
  {ls : List (Label K Op Res)}

/-- What can be reached when the tasks may also be lost at any point. The shared
state is what is left then. -/
inductive Reached (sys : System K Op Res St Or) (cond : Condition K Op Res St) (s₀ : St) :
    Pool K Op Res St → Prop where
  | boot : Reached sys cond s₀ ⟨s₀,fun _ => none⟩
  | step {P P' : Pool K Op Res St} {l : Label K Op Res} (before : Reached sys cond s₀ P)
      (h : Step sys P l P') (hc : cond P.shared P.kinds l) : Reached sys cond s₀ P'
  | crash {P : Pool K Op Res St} (before : Reached sys cond s₀ P) :
      Reached sys cond s₀ ⟨P.shared,fun _ => none⟩

theorem reached_run {s₀ : St} (h : Reached sys cond s₀ P) (run : Run sys cond P ls P') :
    Reached sys cond s₀ P' := by
  induction run with
  | refl P => exact h
  | cons hs hc _ ih => exact ih (h.step hs hc)

/-- What is known of all reached states may be used at every step. -/
theorem run_strengthen (known : St → Prop) (run : Run sys cond P ls P')
    (h : ∀ ls' P1, Run sys cond P ls' P1 → known P1.shared) :
    Run sys (fun s kinds l => cond s kinds l ∧ known s) P ls P' := by
  induction run with
  | refl P => exact .refl P
  | cons hs hc _ ih =>
    exact .cons hs ⟨hc,h [] _ (.refl _)⟩ (ih fun ls' P1 rest => h _ P1 (.cons hs hc rest))

/-- Monitors for every kind of task, the states they start in, and the states
in which a task of that kind may end or continue as another kind. -/
structure Discipline (K Op : Type) (Res : Op → Type) (Q : Type) where
  monitor : K → Monitor Op Res Q
  init : K → Q
  final : K → Q → Option K → Prop

def Obeys (sys : System K Op Res St Or) (D : Discipline K Op Res Q) : Prop :=
  ∀ k, Conforms (D.monitor k) (D.final k) (D.init k) (sys.body k)

abbrev Ghost (K Q : Type) : Type := ℕ → Option (K × Q)

def Ghost.kinds (g : Ghost K Q) (i : ℕ) : Option K := (g i).map Prod.fst

def Discipline.task (D : Discipline K Op Res Q) (k : K) : K × Q := (k,D.init k)

def Discipline.spawn (D : Discipline K Op Res Q) (sys : System K Op Res St Or) (o : Op) (j : ℕ)
    (g : Ghost K Q) : Ghost K Q :=
  match sys.spawns o with
  | none => g
  | some k => update g j (some (D.task k))

inductive GhostStep (sys : System K Op Res St Or) (D : Discipline K Op Res Q) :
    St → Ghost K Q → Label K Op Res → St → Ghost K Q → Prop where
  | start {s : St} {g : Ghost K Q} {k : K} {j : ℕ} (hk : sys.starts k)
      (free : g j = none) :
      GhostStep sys D s g (.start j k) s (update g j (some (D.task k)))
  | act {s s' : St} {g : Ghost K Q} {i j : ℕ} {k : K} {q : Q} {o : Op} {r : Res o} {w : Or}
      (ht : g i = some (k,q)) (allowed : (D.monitor k).allows q o)
      (hs : sys.sem o w s = some (s',r)) (free : g j = none) :
      GhostStep sys D s g (.act i k o r) s'
        (D.spawn sys o j (update g i (some (k,(D.monitor k).next q o r))))
  | next {s : St} {g : Ghost K Q} {i : ℕ} {k : K} {q : Q} {k' : Option K}
      (ht : g i = some (k,q)) (ends : D.final k q k') :
      GhostStep sys D s g (.next i k k') s (update g i (k'.map D.task))

/-- A monitor state for every task, from which the rest of its program conforms. -/
def Tracks (D : Discipline K Op Res Q) (P : Pool K Op Res St) (g : Ghost K Q) : Prop :=
  ∀ i, match P.tasks i, g i with
    | none, none => True
    | some t, some (k,q) => t.kind = k ∧ Conforms (D.monitor k) (D.final k) q t.prog
    | _, _ => False

section
variable {D : Discipline K Op Res Q} {P P' : Pool K Op Res St} {g : Ghost K Q}

theorem Tracks.none_iff (h : Tracks D P g) (i : ℕ) : P.tasks i = none ↔ g i = none := by
  have hi := h i
  cases hp : P.tasks i <;> cases hg : g i <;> simp_all

variable {i : ℕ}

theorem Tracks.get (h : Tracks D P g) {t : Task K Op Res} (ht : P.tasks i = some t) :
    ∃ q, g i = some (t.kind,q) ∧ Conforms (D.monitor t.kind) (D.final t.kind) q t.prog := by
  have hi := h i
  rw [ht] at hi
  cases hg : g i with
  | none => simp [hg] at hi
  | some kq =>
    obtain ⟨k,q⟩ := kq
    simp only [hg] at hi
    obtain ⟨rfl,hc⟩ := hi
    exact ⟨q,rfl,hc⟩

theorem Tracks.find (h : Tracks D P g) {k : K} {q : Q} (hg : g i = some (k,q)) :
    ∃ p, P.tasks i = some ⟨k,p⟩ ∧ Conforms (D.monitor k) (D.final k) q p := by
  have hi := h i
  rw [hg] at hi
  cases hp : P.tasks i with
  | none => simp [hp] at hi
  | some t =>
    simp only [hp] at hi
    obtain ⟨rfl,hc⟩ := hi
    exact ⟨t.prog,rfl,hc⟩

theorem Tracks.kinds (h : Tracks D P g) : P.kinds = g.kinds := by
  funext i
  have hi := h i
  unfold Pool.kinds Ghost.kinds
  cases hp : P.tasks i <;> cases hg : g i <;> simp_all

theorem Tracks.update (h : Tracks D P g) (s : St) (i : ℕ) (t : Option (Task K Op Res))
    (kq : Option (K × Q))
    (ht : match t, kq with
      | none, none => True
      | some t, some (k,q) => t.kind = k ∧ Conforms (D.monitor k) (D.final k) q t.prog
      | _, _ => False) :
    Tracks D ⟨s,update P.tasks i t⟩ (update g i kq) := by
  intro x
  by_cases hx : x = i
  · subst hx
    simpa using ht
  · simpa [update_of_ne hx] using h x

theorem Tracks.spawn (obeys : Obeys sys D) (h : Tracks D P g) (o : Op) (j : ℕ) :
    Tracks D ⟨P.shared,sys.spawn o j P.tasks⟩ (D.spawn sys o j g) := by
  unfold System.spawn Discipline.spawn
  cases sys.spawns o with
  | none => exact h
  | some k => exact h.update P.shared j (some (sys.task k)) (some (D.task k)) ⟨rfl,obeys k⟩

/-- Every step of the programs is a step of their monitors. -/
theorem Tracks.step (obeys : Obeys sys D) (h : Tracks D P g) {l : Label K Op Res}
    (hs : Step sys P l P') : ∃ g', GhostStep sys D P.shared g l P'.shared g' ∧ Tracks D P' g' := by
  cases hs with
  | start hk free =>
    exact ⟨_,.start hk ((h.none_iff _).mp free),
      h.update P.shared _ (some (sys.task _)) (some (D.task _)) ⟨rfl,obeys _⟩⟩
  | act ht hs free =>
    obtain ⟨q,hg,hc⟩ := h.get ht
    refine ⟨_,.act hg hc.1 hs ((h.none_iff _).mp free),?_⟩
    exact Tracks.spawn obeys (h.update _ _ (some _) (some _) ⟨rfl,hc.2 _⟩) _ _
  | next ht =>
    rename_i i k k'
    obtain ⟨q,hg,hc⟩ := h.get ht
    refine ⟨_,.next hg hc,h.update P.shared _ _ _ ?_⟩
    cases k' with
    | none => trivial
    | some k' => exact ⟨rfl,obeys k'⟩

theorem Tracks.acting (h : Tracks D P g) {k : K} {o : Op} {r : Res o}
    (hs : Step sys P (.act i k o r) P') :
    ∃ q w, g i = some (k,q) ∧ (D.monitor k).allows q o ∧
      sys.sem o w P.shared = some (P'.shared,r) := by
  cases hs with
  | act ht hs free =>
    obtain ⟨q,hg,hc⟩ := h.get ht
    exact ⟨q,_,hg,hc.1,hs⟩

end

/-- The invariant rule. A property kept by every monitor step that meets the
condition holds after every run of such steps, and each label is as promised. -/
theorem run_invariant {D : Discipline K Op Res Q}
    (obeys : Obeys sys D) (I : St → Ghost K Q → Prop)
    (good : Label K Op Res → Prop)
    (keeps : ∀ s g l s' g', I s g → GhostStep sys D s g l s' g' → cond s g.kinds l →
      I s' g' ∧ good l)
    (run : Run sys cond P ls P')
    (start : ∃ g, Tracks D P g ∧ I P.shared g) :
    (∃ g, Tracks D P' g ∧ I P'.shared g) ∧ ∀ l ∈ ls, good l := by
  induction run with
  | refl P => exact ⟨start,by simp⟩
  | cons hs hc _ ih =>
    obtain ⟨g,ht,hi⟩ := start
    obtain ⟨g',hg,ht'⟩ := ht.step obeys hs
    obtain ⟨hi',hl⟩ := keeps _ _ _ _ _ hi hg (ht.kinds ▸ hc)
    obtain ⟨hrest,hgood⟩ := ih ⟨g',ht',hi'⟩
    exact ⟨hrest,fun l hm => (List.mem_cons.mp hm).elim (fun h => h ▸ hl) (hgood l)⟩

/-- The same with an account that is kept of the labels. -/
theorem run_noted {X : Type} {D : Discipline K Op Res Q} (obeys : Obeys sys D)
    (note : X → Label K Op Res → X) (I : St → Ghost K Q → X → Prop)
    (keeps : ∀ s g x l s' g', I s g x → GhostStep sys D s g l s' g' → cond s g.kinds l →
      I s' g' (note x l))
    (run : Run sys cond P ls P') {x : X} (start : ∃ g, Tracks D P g ∧ I P.shared g x) :
    ∃ g, Tracks D P' g ∧ I P'.shared g (ls.foldl note x) := by
  induction run generalizing x with
  | refl P => exact start
  | cons hs hc _ ih =>
    obtain ⟨g,ht,hi⟩ := start
    obtain ⟨g',hg,ht'⟩ := ht.step obeys hs
    exact ih ⟨g',ht',keeps _ _ _ _ _ _ hi hg (ht.kinds ▸ hc)⟩

/-- The same where tasks may be lost: losing them all must keep the property. -/
theorem reached_invariant {D : Discipline K Op Res Q} (obeys : Obeys sys D)
    (I : St → Ghost K Q → Prop)
    (keeps : ∀ s g l s' g', I s g → GhostStep sys D s g l s' g' → cond s g.kinds l → I s' g')
    (lost : ∀ s g, I s g → I s fun _ => none) {s₀ : St} (start : I s₀ fun _ => none)
    (h : Reached sys cond s₀ P) : ∃ g, Tracks D P g ∧ I P.shared g := by
  induction h with
  | boot => exact ⟨fun _ => none,fun _ => trivial,start⟩
  | step _ hs hc ih =>
    obtain ⟨g,ht,hi⟩ := ih
    obtain ⟨g',hg,ht'⟩ := ht.step obeys hs
    exact ⟨g',ht',keeps _ _ _ _ _ hi hg (ht.kinds ▸ hc)⟩
  | crash _ ih =>
    obtain ⟨g,-,hi⟩ := ih
    exact ⟨fun _ => none,fun _ => trivial,lost _ g hi⟩

section
variable {ν : Type}

/-- A role is something a task can hold, read off its kind and monitor state. -/
def roleAt (g : Ghost K Q) (role : K × Q → Option ν) (i : ℕ) : Option ν := (g i).bind role

def Exclusive (r : ℕ → Option ν) : Prop := ∀ i j v, r i = some v → r j = some v → i = j

theorem roleAt_update (g : Ghost K Q) (role : K × Q → Option ν) (i : ℕ) (x : Option (K × Q)) :
    roleAt (update g i x) role = update (roleAt g role) i (x.bind role) := by
  funext j
  by_cases hj : j = i
  · subst hj
    simp [roleAt]
  · simp [roleAt,update_of_ne hj]

variable {g g' : Ghost K Q} {i : ℕ} {r : ℕ → Option ν} {D : Discipline K Op Res Q} {s s' : St}

theorem roleAt_some {a : K × Q} (h : g i = some a) (role : K × Q → Option ν) :
    roleAt g role i = role a := by
  simp [roleAt,h]

theorem roleAt_eq_some {role : K × Q → Option ν} {v : ν} :
    roleAt g role i = some v ↔ ∃ a, g i = some a ∧ role a = some v := by
  simp [roleAt,Option.bind_eq_some_iff]

theorem update_some {x : ℕ} {y : Option ν} {v : ν} (h : update r i y x = some v) :
    (x = i ∧ y = some v) ∨ (x ≠ i ∧ r x = some v) := by
  by_cases hx : x = i
  · subst hx
    exact .inl ⟨rfl,by simpa using h⟩
  · rw [update_of_ne hx] at h
    exact .inr ⟨hx,h⟩

theorem Exclusive.mono {r' : ℕ → Option ν} (h : Exclusive r)
    (hr : ∀ x v, r' x = some v → r x = some v) : Exclusive r' := by
  intro a b v ha hb
  exact h a b v (hr a v ha) (hr b v hb)

theorem Exclusive.take (h : Exclusive r) (i : ℕ) (v : ν) (free : ∀ j, j ≠ i → r j ≠ some v) :
    Exclusive (update r i (some v)) := by
  intro a b u ha hb
  by_cases hai : a = i
  · by_cases hbi : b = i
    · rw [hai,hbi]
    · subst hai
      rw [update_self] at ha
      rw [update_of_ne hbi] at hb
      exact absurd (hb.trans ha.symm) (free b hbi)
  · by_cases hbi : b = i
    · subst hbi
      rw [update_self] at hb
      rw [update_of_ne hai] at ha
      exact absurd (ha.trans hb.symm) (free a hai)
    · rw [update_of_ne hai] at ha
      rw [update_of_ne hbi] at hb
      exact h a b u ha hb

theorem Discipline.spawn_eq (D : Discipline K Op Res Q) (sys : System K Op Res St Or) (o : Op)
    {j : ℕ} (free : g j = none) :
    D.spawn sys o j g = update g j ((sys.spawns o).map D.task) := by
  unfold Discipline.spawn
  cases sys.spawns o with
  | none =>
    funext x
    by_cases hx : x = j
    · subst hx
      simp [free]
    · simp [update_of_ne hx]
  | some k => rfl

theorem GhostStep.kept {l : Label K Op Res} (h : GhostStep sys D s g l s' g') {a : ℕ} {t : K × Q}
    (ha : g a = some t) (idle : ∀ k o r, l ≠ .act a k o r) (stays : ∀ k k', l ≠ .next a k k') :
    g' a = some t := by
  cases h with
  | start hk free =>
    rename_i k j
    have hj : a ≠ j := by
      rintro rfl
      rw [free] at ha
      cases ha
    rwa [update_of_ne hj]
  | next ht ends =>
    rename_i i k q k'
    have hi : a ≠ i := by
      rintro rfl
      exact stays k k' rfl
    rwa [update_of_ne hi]
  | act ht allowed hs free =>
    rename_i i j k q o r w
    have hi : a ≠ i := by
      rintro rfl
      exact idle k o r rfl
    have hj : a ≠ j := by
      rintro rfl
      rw [free] at ha
      cases ha
    have hne : j ≠ i := fun e => by simp [e,ht] at free
    rw [Discipline.spawn_eq D sys o (by rwa [update_of_ne hne]),update_of_ne hj,update_of_ne hi]
    exact ha

/-- Where a task comes from: it has begun with this step, in a free place or in
that of a task that has ended; it has acted; or it was there before. -/
theorem GhostStep.origin {l : Label K Op Res} (h : GhostStep sys D s g l s' g') {a : ℕ} {t : K × Q}
    (ha : g' a = some t) :
    (∃ k', t = D.task k' ∧ (∀ k o r, l ≠ .act a k o r) ∧
        (g a = none ∨ ∃ k q, g a = some (k,q) ∧ D.final k q (some k'))) ∨
      (∃ k q o r, l = .act a k o r ∧ g a = some (k,q) ∧ t = (k,(D.monitor k).next q o r)) ∨
      (g a = some t ∧ ∀ k o r, l ≠ .act a k o r) := by
  cases h with
  | start hk free =>
    rename_i k j
    rcases update_some ha with ⟨rfl,e⟩ | ⟨-,e⟩
    · exact .inl ⟨k,(Option.some.inj e).symm,by simp,.inl free⟩
    · exact .inr (.inr ⟨e,by simp⟩)
  | next ht ends =>
    rcases update_some ha with ⟨rfl,e⟩ | ⟨-,e⟩
    · obtain ⟨k1,rfl,rfl⟩ := Option.map_eq_some_iff.mp e
      exact .inl ⟨k1,rfl,by simp,.inr ⟨_,_,ht,ends⟩⟩
    · exact .inr (.inr ⟨e,by simp⟩)
  | act ht allowed hs free =>
    rename_i i j k q o r w
    have hne : j ≠ i := fun e => by simp [e,ht] at free
    rw [Discipline.spawn_eq D sys o (by rwa [update_of_ne hne])] at ha
    rcases update_some ha with ⟨rfl,e⟩ | ⟨-,ha⟩
    · obtain ⟨k1,-,rfl⟩ := Option.map_eq_some_iff.mp e
      exact .inl ⟨k1,rfl,by simp [Ne.symm hne],.inl free⟩
    · rcases update_some ha with ⟨rfl,e⟩ | ⟨hi,e⟩
      · exact .inr (.inl ⟨k,q,o,r,rfl,ht,(Option.some.inj e).symm⟩)
      · exact .inr (.inr ⟨e,by simp [Ne.symm hi]⟩)

theorem GhostStep.acted {k : K} {o : Op} {r : Res o}
    (h : GhostStep sys D s g (.act i k o r) s' g') :
    ∃ q w, g i = some (k,q) ∧ (D.monitor k).allows q o ∧ sys.sem o w s = some (s',r) ∧
      g' i = some (k,(D.monitor k).next q o r) ∧
      ∀ k', sys.spawns o = some k' → ∃ j, g' j = some (D.task k') := by
  cases h with
  | act ht allowed hs free =>
    rename_i j q w
    have hne : j ≠ i := fun e => by simp [e,ht] at free
    rw [Discipline.spawn_eq D sys o (by rwa [update_of_ne hne])]
    refine ⟨q,w,ht,allowed,hs,?_,fun k' hk => ⟨j,?_⟩⟩
    · rw [update_of_ne (Ne.symm hne),update_self]
    · rw [update_self,hk]
      rfl

end

section
variable {R : Type}

def Discipline.both (D : Discipline K Op Res Q) (E : Discipline K Op Res R) :
    Discipline K Op Res (Q × R) where
  monitor := fun k => ⟨fun q o => (D.monitor k).allows q.1 o ∧ (E.monitor k).allows q.2 o,
    fun q o r => ((D.monitor k).next q.1 o r,(E.monitor k).next q.2 o r)⟩
  init := fun k => (D.init k,E.init k)
  final := fun k q k' => D.final k q.1 k' ∧ E.final k q.2 k'

variable {D : Discipline K Op Res Q} {E : Discipline K Op Res R} {g : Ghost K (Q × R)}

theorem conforms_both {k : K} {p : Prog Op Res (Option K)} {q : Q} {r : R}
    (hD : Conforms (D.monitor k) (D.final k) q p) (hE : Conforms (E.monitor k) (E.final k) r p) :
    Conforms ((D.both E).monitor k) ((D.both E).final k) (q,r) p := by
  induction p generalizing q r with
  | ret a => exact ⟨hD,hE⟩
  | step o next ih => exact ⟨⟨hD.1,hE.1⟩,fun a => ih a (hD.2 a) (hE.2 a)⟩

theorem Obeys.both (hD : Obeys sys D) (hE : Obeys sys E) : Obeys sys (D.both E) :=
  fun k => conforms_both (hD k) (hE k)

def Ghost.first (g : Ghost K (Q × R)) : Ghost K Q := fun i => (g i).map fun a => (a.1,a.2.1)

theorem first_some {i : ℕ} {k : K} {q : Q × R} (h : g i = some (k,q)) :
    g.first i = some (k,q.1) := by
  simp [Ghost.first,h]

theorem first_none {i : ℕ} : g.first i = none ↔ g i = none := by
  simp [Ghost.first]

theorem first_update (g : Ghost K (Q × R)) (i : ℕ) (x : Option (K × (Q × R))) :
    Ghost.first (update g i x) = update g.first i (x.map fun a => (a.1,a.2.1)) := by
  funext j
  by_cases hj : j = i
  · subst hj
    simp [Ghost.first]
  · simp [Ghost.first,update_of_ne hj]

theorem first_spawn (D : Discipline K Op Res Q) (E : Discipline K Op Res R)
    (sys : System K Op Res St Or) (o : Op) (j : ℕ) (g : Ghost K (Q × R)) :
    Ghost.first ((D.both E).spawn sys o j g) = D.spawn sys o j g.first := by
  unfold Discipline.spawn
  cases sys.spawns o with
  | none => rfl
  | some k => exact first_update g j _

/-- A step under both disciplines is a step under the first. -/
theorem GhostStep.first {s s' : St} {g' : Ghost K (Q × R)} {l : Label K Op Res}
    (h : GhostStep sys (D.both E) s g l s' g') : GhostStep sys D s g.first l s' g'.first := by
  cases h with
  | start hk free =>
    rw [first_update]
    exact .start hk (first_none.mpr free)
  | act ht allowed hs free =>
    rw [first_spawn,first_update]
    exact .act (first_some ht) allowed.1 hs (first_none.mpr free)
  | next ht ends =>
    rename_i k q k'
    rw [first_update,Option.map_map]
    exact .next (first_some ht) ends.1

end

section

/-- One scheduling decision together with the oracle it uses. -/
inductive Move (K Or : Type) where
  | start (j : ℕ) (k : K)
  | act (i j : ℕ) (w : Or)
  | next (i : ℕ)

variable (sys : System K Op Res St Or)

def Move.apply (P : Pool K Op Res St) : Move K Or → Option (Label K Op Res × Pool K Op Res St)
  | .start j k =>
    if sys.starts k ∧ (P.tasks j).isNone = true then
      some (.start j k,⟨P.shared,update P.tasks j (some (sys.task k))⟩)
    else none
  | .act i j w =>
    match P.tasks i with
    | some ⟨k,.step o rest⟩ =>
      if (P.tasks j).isNone = true then
        (sys.sem o w P.shared).map fun sr =>
          (.act i k o sr.2,⟨sr.1,sys.spawn o j (update P.tasks i (some ⟨k,rest sr.2⟩))⟩)
      else none
    | _ => none
  | .next i =>
    match P.tasks i with
    | some ⟨k,.ret k'⟩ =>
      some (.next i k k',⟨P.shared,update P.tasks i (k'.map sys.task)⟩)
    | _ => none

/-- Plays moves as long as the check admits each step. -/
def play (check : St → (ℕ → Option K) → Label K Op Res → Bool) :
    List (Move K Or) → Pool K Op Res St → Option (List (Label K Op Res) × Pool K Op Res St)
  | [], P => some ([],P)
  | m::ms, P =>
    match m.apply sys P with
    | none => none
    | some (l,P') =>
      if check P.shared P.kinds l = true then
        (play check ms P').map fun r => (l::r.1,r.2)
      else none

variable {sys}

theorem step_of_apply {m : Move K Or} {l : Label K Op Res} (h : m.apply sys P = some (l,P')) :
    Step sys P l P' := by
  cases m with
  | start j k =>
    simp only [Move.apply,Option.ite_none_right_eq_some,Option.some.injEq] at h
    obtain ⟨⟨hk,hf⟩,he⟩ := h
    cases he
    exact .start hk (Option.isNone_iff_eq_none.mp hf)
  | act i j w =>
    simp only [Move.apply] at h
    split at h
    · next k o rest ht =>
      simp only [Option.ite_none_right_eq_some,Option.map_eq_some_iff] at h
      obtain ⟨hf,⟨s',r⟩,hs,he⟩ := h
      cases he
      exact .act ht hs (Option.isNone_iff_eq_none.mp hf)
    · exact absurd h (by simp)
  | next i =>
    simp only [Move.apply] at h
    split at h
    · next k k' ht =>
      simp only [Option.some.injEq] at h
      cases h
      exact .next ht
    · exact absurd h (by simp)

variable {check : St → (ℕ → Option K) → Label K Op Res → Bool} {n : ℕ}

theorem play_cons {m : Move K Or} {ms : List (Move K Or)}
    (h : play sys check (m::ms) P = some (ls,P')) :
    ∃ l P1 ls', m.apply sys P = some (l,P1) ∧ check P.shared P.kinds l ∧
      play sys check ms P1 = some (ls',P') ∧ ls = l::ls' := by
  simp only [play] at h
  split at h
  · cases h
  · next l P1 h1 =>
    simp only [Option.ite_none_right_eq_some,Option.map_eq_some_iff] at h
    obtain ⟨hk,⟨ls',P2⟩,h2,he⟩ := h
    cases he
    exact ⟨l,P1,ls',h1,hk,h2,rfl⟩

theorem run_of_play (hc : ∀ s k l, check s k l → cond s k l) (ms : List (Move K Or))
    (h : play sys check ms P = some (ls,P')) : Run sys cond P ls P' := by
  induction ms generalizing P ls with
  | nil =>
    cases h
    exact .refl _
  | cons m ms ih =>
    obtain ⟨l,P1,ls',h1,hk,h2,rfl⟩ := play_cons h
    exact .cons (step_of_apply h1) (hc _ _ _ hk) (ih h2)

/-- A run found by evaluation: what is tested of its labels and its end holds. -/
theorem exists_run_of_play (sys : System K Op Res St Or)
    (hc : ∀ s k l, check s k l → cond s k l) (ms : List (Move K Or)) (P : Pool K Op Res St)
    (test : List (Label K Op Res) → Pool K Op Res St → Bool)
    (h : (play sys check ms P).any (fun r => test r.1 r.2)) :
    ∃ ls P', Run sys cond P ls P' ∧ test ls P' := by
  obtain ⟨⟨ls,P'⟩,hp,ht⟩ := (Option.any_eq_true _ _).mp h
  exact ⟨ls,P',run_of_play hc ms hp,ht⟩

theorem exists_run_of_free_play (sys : System K Op Res St Or) (ms : List (Move K Or))
    (P : Pool K Op Res St) (test : List (Label K Op Res) → Pool K Op Res St → Bool)
    (h : (play sys (fun _ _ _ => true) ms P).any (fun r => test r.1 r.2)) :
    ∃ ls P', Run sys unrestricted P ls P' ∧ test ls P' :=
  exists_run_of_play sys (fun _ _ _ _ => trivial) ms P test h

/-- All tasks the move touches have an index below the bound. -/
def Move.below (n : ℕ) : Move K Or → Bool
  | .start j _ => j < n
  | .act i j _ => i < n && j < n
  | .next i => i < n

theorem apply_tasks {i : ℕ} {m : Move K Or} {l : Label K Op Res} (hm : m.below n)
    (h : m.apply sys P = some (l,P')) (hi : n ≤ i) : P'.tasks i = P.tasks i := by
  cases m with
  | start j k =>
    have hj : j < n := by simpa [Move.below] using hm
    simp only [Move.apply,Option.ite_none_right_eq_some,Option.some.injEq] at h
    obtain ⟨-,he⟩ := h
    cases he
    exact update_of_ne (by omega) _ _
  | act a j w =>
    have hb : a < n ∧ j < n := by simpa [Move.below] using hm
    have ha : i ≠ a := by omega
    have hj : i ≠ j := by omega
    simp only [Move.apply] at h
    split at h
    · simp only [Option.ite_none_right_eq_some,Option.map_eq_some_iff] at h
      obtain ⟨-,⟨s',r⟩,-,he⟩ := h
      cases he
      unfold System.spawn
      split
      · exact update_of_ne ha _ _
      · exact (update_of_ne hj _ _).trans (update_of_ne ha _ _)
    · cases h
  | next a =>
    have ha : a < n := by simpa [Move.below] using hm
    simp only [Move.apply] at h
    split at h
    · simp only [Option.some.injEq] at h
      cases h
      exact update_of_ne (by omega) _ _
    · cases h

theorem play_tasks {i : ℕ} (ms : List (Move K Or)) (hm : ms.all (Move.below n))
    (h : play sys check ms P = some (ls,P')) (hi : n ≤ i) : P'.tasks i = P.tasks i := by
  induction ms generalizing P ls with
  | nil =>
    cases h
    rfl
  | cons m ms ih =>
    simp only [List.all_cons,Bool.and_eq_true] at hm
    obtain ⟨l,P1,ls',h1,-,h2,-⟩ := play_cons h
    exact (ih hm.2 h2).trans (apply_tasks hm.1 h1 hi)

/-- A check that looks at the tasks below a bound is enough for moves below it. -/
theorem run_of_play_below
    (hc : ∀ s k l, (∀ i, n ≤ i → k i = none) → check s k l → cond s k l)
    (ms : List (Move K Or)) (hm : ms.all (Move.below n)) (hP : ∀ i, n ≤ i → P.tasks i = none)
    (h : play sys check ms P = some (ls,P')) : Run sys cond P ls P' := by
  induction ms generalizing P ls with
  | nil =>
    cases h
    exact .refl _
  | cons m ms ih =>
    simp only [List.all_cons,Bool.and_eq_true] at hm
    obtain ⟨l,P1,ls',h1,hk,h2,rfl⟩ := play_cons h
    have hkinds : ∀ i, n ≤ i → P.kinds i = none := fun i hi => by simp [Pool.kinds,hP i hi]
    have hP1 : ∀ i, n ≤ i → P1.tasks i = none := fun i hi =>
      (apply_tasks hm.1 h1 hi).trans (hP i hi)
    exact .cons (step_of_apply h1) (hc _ _ _ hkinds hk) (ih hm.2 hP1 h2)

/-- The step after a run, both found by evaluation. -/
theorem exists_step_of_play (sys : System K Op Res St Or)
    (hc : ∀ s k l, (∀ i, n ≤ i → k i = none) → check s k l → cond s k l)
    (ms : List (Move K Or)) (m : Move K Or) (P : Pool K Op Res St)
    (hm : ms.all (Move.below n)) (hP : ∀ i, n ≤ i → P.tasks i = none)
    (test : Pool K Op Res St → Label K Op Res → Bool)
    (h : (play sys check ms P).any (fun r => (m.apply sys r.2).any fun l =>
      check r.2.shared r.2.kinds l.1 && test r.2 l.1)) :
    ∃ ls P1 l P2, Run sys cond P ls P1 ∧ Step sys P1 l P2 ∧ cond P1.shared P1.kinds l ∧
      test P1 l := by
  obtain ⟨⟨ls,P1⟩,hp,h1⟩ := (Option.any_eq_true _ _).mp h
  obtain ⟨⟨l,P2⟩,hl,h2⟩ := (Option.any_eq_true _ _).mp h1
  obtain ⟨hk,ht⟩ := Bool.and_eq_true_iff.mp h2
  have hfree : ∀ i, n ≤ i → P1.kinds i = none := by
    intro i hi
    have htasks : P1.tasks i = none := (play_tasks ms hm hp hi).trans (hP i hi)
    simp [Pool.kinds,htasks]
  exact ⟨ls,P1,l,P2,run_of_play_below hc ms hm hP hp,step_of_apply hl,hc _ _ _ hfree hk,ht⟩

/-- A run of moves below a bound leaves no task above it. -/
theorem exists_run_below (sys : System K Op Res St Or)
    (hc : ∀ s k l, (∀ i, n ≤ i → k i = none) → check s k l → cond s k l)
    (ms : List (Move K Or)) (P : Pool K Op Res St) (hm : ms.all (Move.below n))
    (hP : ∀ i, n ≤ i → P.tasks i = none) (test : Pool K Op Res St → Bool)
    (h : (play sys check ms P).any (fun r => test r.2)) :
    ∃ ls P', Run sys cond P ls P' ∧ (∀ i, n ≤ i → P'.tasks i = none) ∧ test P' := by
  obtain ⟨⟨ls,P'⟩,hp,ht⟩ := (Option.any_eq_true _ _).mp h
  exact ⟨ls,P',run_of_play_below hc ms hm hP hp,
    fun i hi => (play_tasks ms hm hp hi).trans (hP i hi),ht⟩

/-- A run found by evaluation that is looked at halfway. -/
theorem exists_runs_of_play (sys : System K Op Res St Or)
    (hc : ∀ s k l, check s k l → cond s k l)
    (ms ms' : List (Move K Or)) (P : Pool K Op Res St) (test : Pool K Op Res St → Bool)
    (test' : List (Label K Op Res) → Pool K Op Res St → Bool)
    (h : (play sys check ms P).any (fun r => test r.2 &&
      (play sys check ms' r.2).any (fun r' => test' r'.1 r'.2))) :
    ∃ ls P1 ls' P2, Run sys cond P ls P1 ∧ Run sys cond P1 ls' P2 ∧ test P1 ∧ test' ls' P2 := by
  obtain ⟨ls,P1,run,h1⟩ := exists_run_of_play sys hc ms P
    (fun _ P1 => test P1 && (play sys check ms' P1).any fun r => test' r.1 r.2) h
  obtain ⟨ht,hp⟩ := Bool.and_eq_true_iff.mp h1
  obtain ⟨ls',P2,later,ht'⟩ := exists_run_of_play sys hc ms' P1 test' hp
  exact ⟨ls,P1,ls',P2,run,later,ht,ht'⟩

end

end Remerge.Interleaving

namespace Remerge.RecordedRuns
open StepProgram Interleaving

/-- A recorder sees the oracle and the shared state on both sides of an operation,
and may refuse an oracle that does not follow from what it has seen. -/
structure Recorder (Op St Or X : Type) where
  admits : Or → X → Bool
  note : Op → Or → St → St → X → X

variable {K Op : Type} {Res : Op → Type} {St Or X Q : Type}

def recorded (sys : System K Op Res St Or) (rec : Recorder Op St Or X) :
    System K Op Res (St × X) Or where
  sem o w s :=
    if rec.admits w s.2 then
      (sys.sem o w s.1).map fun r => ((r.1,rec.note o w s.1 r.1 s.2),r.2)
    else none
  body := sys.body
  spawns := sys.spawns
  starts := sys.starts

variable {sys : System K Op Res St Or} {rec : Recorder Op St Or X}

theorem recorded_sem {o : Op} {w : Or} {s s' : St × X} {r : Res o}
    (h : (recorded sys rec).sem o w s = some (s',r)) :
    rec.admits w s.2 ∧ sys.sem o w s.1 = some (s'.1,r) ∧ s'.2 = rec.note o w s.1 s'.1 s.2 := by
  simp only [recorded,Option.ite_none_right_eq_some,Option.map_eq_some_iff] at h
  obtain ⟨ha,⟨t,r'⟩,hs,he⟩ := h
  cases he
  exact ⟨ha,hs,rfl⟩

variable {D : Discipline K Op Res Q}

theorem obeys_recorded (h : Obeys sys D) : Obeys (recorded sys rec) D := h

/-- A property of the shared state and the record that every admitted operation
keeps, where the programs are known to keep a discipline. -/
theorem recorded_invariant {cond : Condition K Op Res (St × X)}
    (obeys : Obeys sys D) (I : St → X → Prop)
    (keeps : ∀ s x k q o w s' r, I s x → (D.monitor k).allows q o → rec.admits w x →
      sys.sem o w s = some (s',r) → I s' (rec.note o w s s' x))
    {P P' : Pool K Op Res (St × X)} {ls : List (Label K Op Res)}
    (run : Run (recorded sys rec) cond P ls P') (tracks : ∃ g, Tracks D P g)
    (start : I P.shared.1 P.shared.2) : I P'.shared.1 P'.shared.2 := by
  have step : ∀ s g l s' g', I s.1 s.2 → GhostStep (recorded sys rec) D s g l s' g' →
      cond s g.kinds l → I s'.1 s'.2 ∧ True := by
    intro s g l s' g' h hs _
    refine ⟨?_,trivial⟩
    cases hs with
    | start hk free => exact h
    | next ht ends => exact h
    | act ht allowed hs free =>
      obtain ⟨ha,hsem,hx⟩ := recorded_sem hs
      rw [hx]
      exact keeps _ _ _ _ _ _ _ _ h allowed ha hsem
  obtain ⟨g,hg⟩ := tracks
  obtain ⟨⟨-,-,hend⟩,-⟩ := run_invariant (obeys_recorded obeys) (fun s _ => I s.1 s.2)
    (fun _ => True) step run ⟨g,hg,start⟩
  exact hend

end Remerge.RecordedRuns
