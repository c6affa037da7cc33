import Mathlib.Data.Nat.Notation
import Mathlib.Logic.Function.Basic

/-!
# Programs of atomic steps

A program is a finite tree of operations. Each operation names the type of its
answer, and the rest of the program depends on that answer. What an operation
does to the shared state is supplied separately by a semantics, which may
refuse an operation (a lock that is held) and may consult an oracle (clocks,
fresh names, the outcome of calls into other systems).

A stage is a program that names the stage after it, or none. A chain of stages
need not end; `Concludes` says that every chain from here does, and where.
-/

set_option autoImplicit false

namespace Remerge.StepProgram

inductive Prog (Op : Type) (Res : Op → Type) (α : Type) : Type where
  | ret (value : α)
  | step (op : Op) (next : Res op → Prog Op Res α)

section
variable {Op Op' : Type} {Res : Op → Type} {Res' : Op' → Type} {St Or α β γ Q : Type}

def Prog.bind : Prog Op Res α → (α → Prog Op Res β) → Prog Op Res β
  | .ret a, f => f a
  | .step o k, f => .step o (fun r => (k r).bind f)

instance : Monad (Prog Op Res) where
  pure := .ret
  bind := Prog.bind

def perform (o : Op) : Prog Op Res (Res o) := .step o .ret

@[simp] theorem ret_bind (a : α) (f : α → Prog Op Res β) : (Prog.ret a >>= f) = f a := rfl

@[simp] theorem pure_eq_ret (a : α) : (pure a : Prog Op Res α) = .ret a := rfl

@[simp] theorem step_bind (o : Op) (k : Res o → Prog Op Res α) (f : α → Prog Op Res β) :
    (Prog.step o k >>= f) = .step o (fun r => k r >>= f) := rfl

@[simp] theorem perform_bind (o : Op) (f : Res o → Prog Op Res β) :
    ((perform o : Prog Op Res (Res o)) >>= f) = .step o f := rfl

@[simp] theorem bind_ret (p : Prog Op Res α) : (p >>= Prog.ret) = p := by
  induction p with
  | ret a => rfl
  | step o k ih =>
    rw [step_bind]
    congr 1
    funext r
    exact ih r

theorem prog_bind_assoc (p : Prog Op Res α) (f : α → Prog Op Res β) (g : β → Prog Op Res γ) :
    (p >>= f) >>= g = p >>= fun a => f a >>= g := by
  induction p with
  | ret a => rfl
  | step o k ih =>
    simp only [step_bind]
    congr 1
    funext r
    exact ih r

def Bound (o : Op) : Prog Op Res α → Prop
  | .ret _ => False
  | .step o' next => o' = o ∨ ∀ r, Bound o (next r)

/-- Replaces every operation of a program by a program over other operations. -/
def interpret (call : (o : Op) → Prog Op' Res' (Res o)) : Prog Op Res α → Prog Op' Res' α
  | .ret a => .ret a
  | .step o k => call o >>= fun r => interpret call (k r)

theorem interpret_bind (call : (o : Op) → Prog Op' Res' (Res o)) (p : Prog Op Res α)
    (f : α → Prog Op Res β) :
    interpret call (p >>= f) = interpret call p >>= fun a => interpret call (f a) := by
  induction p with
  | ret a => rfl
  | step o k ih =>
    change (call o >>= fun r => interpret call (k r >>= f)) =
      (call o >>= fun r => interpret call (k r)) >>= fun a => interpret call (f a)
    rw [prog_bind_assoc]
    simp only [ih]

/-- Programs that can end in an error, in the style of the `?` operator. -/
abbrev Fallible (Op : Type) (Res : Op → Type) (ε α : Type) : Type := ExceptT ε (Prog Op Res) α

/-- A program run for its outcome: an error is returned, not raised. -/
def outcome {ε : Type} (x : Fallible Op Res ε α) : Prog Op Res (Except ε α) := x.run

variable {ε : Type}

theorem outcome_bind (x : Fallible Op Res ε α) (f : α → Fallible Op Res ε β) :
    outcome (x >>= f) = outcome x >>= fun
      | .ok a => outcome (f a)
      | .error e => .ret (.error e) := by
  change ExceptT.run (x >>= f) = _
  rw [ExceptT.run_bind]
  congr 1
  funext r
  cases r <;> rfl

theorem fallible_bind_assoc (x : Fallible Op Res ε α) (f : α → Fallible Op Res ε β)
    (g : β → Fallible Op Res ε γ) : (x >>= f) >>= g = x >>= fun a => f a >>= g := by
  change outcome ((x >>= f) >>= g) = outcome (x >>= fun a => f a >>= g)
  rw [outcome_bind,outcome_bind,outcome_bind,prog_bind_assoc]
  congr 1
  funext r
  cases r with
  | ok a => exact (outcome_bind (f a) g).symm
  | error e => rfl

@[simp] theorem outcome_pure (a : α) : outcome (pure a : Fallible Op Res ε α) = .ret (.ok a) := rfl

@[simp] theorem outcome_throw (e : ε) :
    outcome (throw e : Fallible Op Res ε α) = .ret (.error e) := rfl

@[simp] theorem outcome_mk (p : Prog Op Res (Except ε α)) :
    outcome (ExceptT.mk p : Fallible Op Res ε α) = p := rfl

end

abbrev Sem (Op : Type) (Res : Op → Type) (St Or : Type) : Type :=
  (o : Op) → Or → St → Option (St × Res o)

section
variable {Op : Type} {Res : Op → Type} {St Or α β : Type} (sem : Sem Op Res St Or)

inductive Runs : Prog Op Res α → St → St → α → Prop where
  | ret (s : St) (a : α) : Runs (.ret a) s s a
  | step {o : Op} {k : Res o → Prog Op Res α} {s s' s'' : St} {w : Or} {r : Res o} {a : α}
      (hs : sem o w s = some (s',r)) (rest : Runs (k r) s' s'' a) : Runs (.step o k) s s'' a

def After : Prog Op Res α → (St → α → Prop) → St → Prop
  | .ret a, post, s => post s a
  | .step o k, post, s => ∀ w s' r, sem o w s = some (s',r) → After (k r) post s'

def runWith : List Or → Prog Op Res α → St → Option (St × α)
  | _, .ret a, s => some (s,a)
  | [], .step _ _, _ => none
  | w::ws, .step o k, s =>
    match sem o w s with
    | none => none
    | some (s',r) => runWith ws (k r) s'

/-- With these answers the program ends without any of the operations. -/
def escapes (w : Or) (avoided : Op → Bool) : Prog Op Res α → St → Bool
  | .ret _, _ => true
  | .step o k, s => !avoided o && (sem o w s).any fun r => escapes w avoided (k r.2) r.1

variable {sem} {p : Prog Op Res α} {s : St} {post : St → α → Prop} {ε : Type}
  {x : Fallible Op Res ε α}

theorem not_bound_of_escapes {w : Or} {avoided : Op → Bool} {o : Op} (ho : avoided o)
    (h : escapes sem w avoided p s) : ¬Bound o p := by
  induction p generalizing s with
  | ret a => exact fun hb => hb
  | step o' k ih =>
    rw [escapes,Bool.and_eq_true,Option.any_eq_true] at h
    obtain ⟨hn,r,-,hr⟩ := h
    rintro (rfl | hb)
    · rw [ho] at hn
      cases hn
    · exact ih r.2 hr (hb r.2)

theorem after_iff (p : Prog Op Res α) (post : St → α → Prop) (s : St) :
    After sem p post s ↔ ∀ s' a, Runs sem p s s' a → post s' a := by
  induction p generalizing s with
  | ret a =>
    constructor
    · intro h s' a' hr
      cases hr
      exact h
    · intro h
      exact h s a (.ret s a)
  | step o k ih =>
    constructor
    · intro h s'' a hr
      cases hr with
      | step hs rest => exact (ih _ _).mp (h _ _ _ hs) _ _ rest
    · intro h w s' r hs
      exact (ih r s').mpr (fun s'' a hr => h s'' a (.step hs hr))

variable {post' mid : St → α → Prop} {f : α → Fallible Op Res ε β}

theorem after_mono (h : After sem p post s) (hp : ∀ s' a, post s' a → post' s' a) :
    After sem p post' s := by
  induction p generalizing s with
  | ret a => exact hp _ _ h
  | step o k ih => exact fun w s' r hs => ih r (h w s' r hs)

theorem after_bind (p : Prog Op Res α) (f : α → Prog Op Res β) (post : St → β → Prop) (s : St) :
    After sem (p >>= f) post s ↔ After sem p (fun s' a => After sem (f a) post s') s := by
  induction p generalizing s with
  | ret a => rfl
  | step o k ih =>
    constructor
    · exact fun h w s' r hs => (ih r s').mp (h w s' r hs)
    · exact fun h w s' r hs => (ih r s').mpr (h w s' r hs)

theorem after_seq {f : α → Prog Op Res β} {post : St → β → Prop} (hp : After sem p mid s)
    (hf : ∀ s' a, mid s' a → After sem (f a) post s') : After sem (p >>= f) post s :=
  (after_bind p f post s).mpr (after_mono hp hf)

theorem after_outcome_bind
    {post : St → Except ε β → Prop}
    (h : After sem (outcome x) (fun s' r => match r with
      | .ok a => After sem (outcome (f a)) post s'
      | .error e => post s' (.error e)) s) : After sem (outcome (x >>= f)) post s := by
  rw [outcome_bind,after_bind]
  refine after_mono h ?_
  intro s' r hr
  cases r with
  | ok a => exact hr
  | error e => exact hr

variable (sem) in
def Succeeds {ε : Type} (x : Fallible Op Res ε α) (post : St → α → Prop) (s : St) : Prop :=
  After sem (outcome x) (fun s' r => ∃ a, r = .ok a ∧ post s' a) s

theorem succeeds_pure {a : α} (h : post s a) :
    Succeeds sem (pure a : Fallible Op Res ε α) post s := ⟨a,rfl,h⟩

theorem succeeds_mono (h : Succeeds sem x post s) (hp : ∀ s' a, post s' a → post' s' a) :
    Succeeds sem x post' s := by
  refine after_mono h ?_
  rintro s' r ⟨a,hr,ha⟩
  exact ⟨a,hr,hp s' a ha⟩

theorem succeeds_bind {post : St → β → Prop} (hx : Succeeds sem x mid s)
    (hf : ∀ s' a, mid s' a → Succeeds sem (f a) post s') : Succeeds sem (x >>= f) post s := by
  apply after_outcome_bind
  refine after_mono hx ?_
  rintro s' r ⟨a,rfl,ha⟩
  exact hf s' a ha

theorem runs_of_runWith (ws : List Or) (p : Prog Op Res α) (s s' : St) (a : α)
    (h : runWith sem ws p s = some (s',a)) : Runs sem p s s' a := by
  induction ws generalizing p s with
  | nil =>
    cases p with
    | ret b =>
      simp only [runWith,Option.some.injEq,Prod.mk.injEq] at h
      obtain ⟨rfl,rfl⟩ := h
      exact .ret s b
    | step o k => simp [runWith] at h
  | cons w ws ih =>
    cases p with
    | ret b =>
      simp only [runWith,Option.some.injEq,Prod.mk.injEq] at h
      obtain ⟨rfl,rfl⟩ := h
      exact .ret s b
    | step o k =>
      simp only [runWith] at h
      split at h
      · exact absurd h (by simp)
      · next s1 r hs => exact .step hs (ih (k r) s1 h)

/-- When no operation can be refused, every program has a complete execution. -/
theorem exists_runs (total : ∀ o s, ∃ w s' r, sem o w s = some (s',r))
    (p : Prog Op Res α) (s : St) : ∃ s' a, Runs sem p s s' a := by
  induction p generalizing s with
  | ret a => exact ⟨s,a,.ret s a⟩
  | step o k ih =>
    obtain ⟨w,s1,r,hs⟩ := total o s
    obtain ⟨s2,a,hr⟩ := ih r s1
    exact ⟨s2,a,.step hs hr⟩

/-- Whatever admitted answers come, each operation is performed in a state its
guard admits and the program ends in the postcondition. -/
def Safely (sem : Sem Op Res St Or) (admitted : (o : Op) → Res o → Prop)
    (guard : Op → St → Prop) : Prog Op Res α → (St → α → Prop) → St → Prop
  | .ret a, post, s => post s a
  | .step o k, post, s => guard o s ∧ ∀ w s' r, sem o w s = some (s',r) → admitted o r →
      Safely sem admitted guard (k r) post s'

variable {sem : Sem Op Res St Or} {admitted : (o : Op) → Res o → Prop} {guard : Op → St → Prop}
  {p : Prog Op Res α} {post : St → α → Prop} {s : St}

theorem safely_seq {f : α → Prog Op Res β} {mid : St → α → Prop} {post : St → β → Prop}
    (hp : Safely sem admitted guard p mid s)
    (hf : ∀ s' a, mid s' a → Safely sem admitted guard (f a) post s') :
    Safely sem admitted guard (p >>= f) post s := by
  induction p generalizing s with
  | ret a => exact hf _ _ hp
  | step o k ih => exact ⟨hp.1,fun w s' r hs hr => ih r (hp.2 w s' r hs hr)⟩

theorem safely_mono {post' : St → α → Prop} {guard' : Op → St → Prop}
    (h : Safely sem admitted guard p post s) (hp : ∀ s' a, post s' a → post' s' a)
    (hg : ∀ o s', guard o s' → guard' o s') : Safely sem admitted guard' p post' s := by
  induction p generalizing s with
  | ret a => exact hp _ _ h
  | step o k ih => exact ⟨hg _ _ h.1,fun w s' r hs hr => ih r (h.2 w s' r hs hr)⟩

theorem safely_runs {s' : St} {a : α} (h : Safely sem (fun _ _ => True) guard p post s)
    (run : Runs sem p s s' a) : post s' a := by
  induction run with
  | ret s a => exact h
  | step hs _ ih => exact ih (h.2 _ _ _ hs trivial)

end

/-- A monitor watches the operations of one task. It says which operation is
allowed in which of its states, and how the answer moves it on. -/
structure Monitor (Op : Type) (Res : Op → Type) (Q : Type) where
  allows : Q → Op → Prop
  next : Q → (o : Op) → Res o → Q

section
variable {Op : Type} {Res : Op → Type} {α β Q : Type}

def Conforms (m : Monitor Op Res Q) (final : Q → α → Prop) : Q → Prog Op Res α → Prop
  | q, .ret a => final q a
  | q, .step o k => m.allows q o ∧ ∀ r, Conforms m final (m.next q o r) (k r)

variable {m : Monitor Op Res Q}

@[simp] theorem conforms_ret (final : Q → α → Prop) (q : Q) (a : α) :
    Conforms m final q (.ret a) ↔ final q a := Iff.rfl

variable {final : Q → α → Prop} {q : Q} {p : Prog Op Res α} {f : α → Prog Op Res β} {St Or : Type}
  {sem : Sem Op Res St Or} {cond prop : Op → St → Prop} {s : St}

theorem conforms_mono {final' : Q → α → Prop} (h : Conforms m final q p)
    (hf : ∀ q a, final q a → final' q a) : Conforms m final' q p := by
  induction p generalizing q with
  | ret a => exact hf _ _ h
  | step o k ih => exact ⟨h.1,fun r => ih r (h.2 r)⟩

variable {R Op' : Type} {Res' : Op' → Type}

theorem conforms_transfer {m' : Monitor Op Res R} {final' : α → Prop} (h : Conforms m final q p)
    (ha : ∀ q q' o, m.allows q o → m'.allows q' o) (hf : ∀ q a, final q a → final' a) (q' : R) :
    Conforms m' (fun _ a => final' a) q' p := by
  induction p generalizing q q' with
  | ret a => exact hf _ _ h
  | step o k ih => exact ⟨ha _ _ _ h.1,fun r => ih r (h.2 r) _⟩

theorem conforms_bind {mid : Q → α → Prop} {final : Q → β → Prop} (hp : Conforms m mid q p)
    (hf : ∀ q a, mid q a → Conforms m final q (f a)) : Conforms m final q (p >>= f) := by
  induction p generalizing q with
  | ret a => exact hf _ _ hp
  | step o k ih => exact ⟨hp.1,fun r => ih r (hp.2 r)⟩

/-- A program conforms once its operations are carried out by other programs, if
each of them does wherever the operation is allowed. -/
theorem conforms_interpret {m' : Monitor Op' Res' R}
    {call : (o : Op) → Prog Op' Res' (Res o)} (known : Q → Prop)
    (hcall : ∀ q o, known q → m.allows q o → ∀ r,
      Conforms m' (fun _ a => known (m.next q o a)) r (call o))
    (h : Conforms m final q p) (hq : known q)
    (r : R) : Conforms m' (fun _ a => ∃ q', known q' ∧ final q' a) r (interpret call p) := by
  induction p generalizing q r with
  | ret a => exact ⟨q,hq,h⟩
  | step o k ih => exact conforms_bind (hcall q o hq h.1 r) fun r' a ha => ih a (h.2 a) ha r'

/-- As long as the steps meet a condition on the state before them, each of them
has the property there. -/
def Throughout {St Or : Type} (sem : Sem Op Res St Or) (cond prop : Op → St → Prop) :
    Prog Op Res α → St → Prop
  | .ret _, _ => True
  | .step o k, s => cond o s → prop o s ∧
      ∀ w s' r, sem o w s = some (s',r) → Throughout sem cond prop (k r) s'

theorem throughout_seq {mid : St → α → Prop} (hp : Throughout sem cond prop p s)
    (hm : After sem p mid s) (hf : ∀ s' a, mid s' a → Throughout sem cond prop (f a) s') :
    Throughout sem cond prop (p >>= f) s := by
  induction p generalizing s with
  | ret a => exact hf s a hm
  | step o k ih =>
    intro hc
    exact ⟨(hp hc).1,fun w s' r hs => ih r ((hp hc).2 w s' r hs) (hm w s' r hs)⟩

theorem throughout_left (h : Throughout sem cond prop (p >>= f) s) :
    Throughout sem cond prop p s := by
  induction p generalizing s with
  | ret a => trivial
  | step o k ih => exact fun hc => ⟨(h hc).1,fun w s' r hs => ih r ((h hc).2 w s' r hs)⟩

theorem throughout_after (hc : ∀ o s, cond o s) {s' : St} {a : α} (hr : Runs sem p s s' a)
    (h : Throughout sem cond prop (p >>= f) s) : Throughout sem cond prop (f a) s' := by
  induction hr with
  | ret s a => exact h
  | step hs rest ih => exact ih ((h (hc _ _)).2 _ _ _ hs)

theorem throughout_bind_iff (hf : ∀ a s, Throughout sem cond prop (f a) s) (s : St) :
    Throughout sem cond prop (p >>= f) s ↔ Throughout sem cond prop p s := by
  induction p generalizing s with
  | ret a => exact iff_of_true (hf a s) trivial
  | step o k ih =>
    simp only [step_bind,Throughout]
    constructor
    · exact fun h hc => ⟨(h hc).1,fun w s' r hs => (ih r s').mp ((h hc).2 w s' r hs)⟩
    · exact fun h hc => ⟨(h hc).1,fun w s' r hs => (ih r s').mpr ((h hc).2 w s' r hs)⟩

def AlwaysConforms (m : Monitor Op Res Q) (p : Prog Op Res α) : Prop :=
  ∀ q, Conforms m (fun _ _ => True) q p

theorem always_ret (a : α) : AlwaysConforms m (.ret a : Prog Op Res α) := fun _ => trivial

theorem always_bind (hp : AlwaysConforms m p) (hf : ∀ a, AlwaysConforms m (f a)) :
    AlwaysConforms m (p >>= f) := fun q =>
  conforms_bind (hp q) fun q a _ => hf a q

theorem always_outcome_bind {ε : Type} {x : Fallible Op Res ε α} {f : α → Fallible Op Res ε β}
    (hx : AlwaysConforms m (outcome x)) (hf : ∀ a, AlwaysConforms m (outcome (f a))) :
    AlwaysConforms m (outcome (x >>= f)) := by
  rw [outcome_bind]
  apply always_bind hx
  intro r
  cases r with
  | ok a => exact hf a
  | error e => exact always_ret _

theorem always_interpret {call : (o : Op') → Prog Op Res (Res' o)}
    (h : ∀ o, AlwaysConforms m (call o)) (p : Prog Op' Res' α) :
    AlwaysConforms m (interpret call p) := by
  induction p with
  | ret a => exact always_ret a
  | step o k ih => exact always_bind (h o) ih

end

end Remerge.StepProgram

namespace Remerge.StagedRuns
open StepProgram

variable {K Op : Type} {Res : Op → Type} {St Or : Type}

def Total (sem : Sem Op Res St Or) : Prop := ∀ o s, ∃ w s' r, sem o w s = some (s',r)

inductive Concludes (sem : Sem Op Res St Or) (body : K → Prog Op Res (Option K))
    (post : St → Prop) : Option K → St → Prop where
  | ended {s : St} (h : post s) : Concludes sem body post none s
  | stage {k : K} {s : St}
      (h : ∀ s' k', Runs sem (body k) s s' k' → Concludes sem body post k' s') :
      Concludes sem body post (some k) s

variable {sem : Sem Op Res St Or} {body : K → Prog Op Res (Option K)} {post post' : St → Prop}
  {k : Option K} {s : St}

theorem concludes_stage {k : K}
    (h : After sem (body k) (fun s' k' => Concludes sem body post k' s') s) :
    Concludes sem body post (some k) s :=
  .stage fun s' k' hr => (after_iff _ _ _).mp h s' k' hr

theorem Concludes.mono (h : Concludes sem body post k s) (hp : ∀ s, post s → post' s) :
    Concludes sem body post' k s := by
  induction h with
  | ended h => exact .ended (hp _ h)
  | stage _ ih => exact .stage ih

theorem Concludes.meet (total : Total sem) (h : Concludes sem body post k s)
    (h' : Concludes sem body post' k s) : ∃ s', post s' ∧ post' s' := by
  induction h with
  | ended h =>
    cases h' with
    | ended h' => exact ⟨_,h,h'⟩
  | @stage k s _ ih =>
    cases h' with
    | stage h' =>
      obtain ⟨s',k',hr⟩ := exists_runs total (body k) s
      exact ih s' k' hr (h' s' k' hr)

end Remerge.StagedRuns
