import Mathlib.Logic.Relation
import Remerge.StepProgram

/-!
# Fair read-write locks

Tasks ask for locks in a queue for each lock and are served in order, readers
together. A task is blocked by the holders of the lock it asks for and by those
who stand before it in the queue. Where every task asks for locks of rising rank
only, no tasks block each other in a circle, and every wait leads to a task that
waits for nobody.
-/

set_option autoImplicit false

namespace Remerge.LockQueues
open StepProgram Function Relation

/-- A mutex is a lock that is always asked for in write mode. -/
inductive Mode where
  | read | write
  deriving DecidableEq

/-- Besides locking, a task takes branches that the locks do not decide. -/
inductive LockOp (L : Type) where
  | acquire (lock : L) (mode : Mode)
  | release (lock : L)
  | choose

@[reducible] def LockRes {L : Type} : LockOp L → Type
  | .choose => Bool
  | _ => Unit

abbrev LockProg (L α : Type) : Type := Prog (LockOp L) LockRes α

section
variable {L α : Type}

def guarding (l : L) (m : Mode) (body : LockProg L α) : LockProg L α :=
  .step (.acquire l m) fun _ => body >>= fun a => .step (.release l) fun _ => .ret a

def reading (l : L) : LockProg L Unit := guarding l .read (.ret ())

def writing (l : L) : LockProg L Unit := guarding l .write (.ret ())

def choose : LockProg L Bool := .step .choose .ret

end

structure LockTask (L : Type) where
  held : List (L × Mode)
  rest : LockProg L Unit

structure LockState (L : Type) where
  tasks : ℕ → Option (LockTask L)
  queue : L → List ℕ

variable {L : Type} [DecidableEq L]

def Grantable (P : LockState L) (l : L) (m : Mode) : Prop :=
  ∀ i t m', P.tasks i = some t → (l,m') ∈ t.held → m = .read ∧ m' = .read

inductive LockStep (bodies : Set (LockProg L Unit)) : LockState L → LockState L → Prop where
  | start {P : LockState L} {i : ℕ} {p : LockProg L Unit} (hp : p ∈ bodies)
      (free : P.tasks i = none) :
      LockStep bodies P { P with tasks := update P.tasks i (some ⟨[],p⟩) }
  | request {P : LockState L} {i : ℕ} {held : List (L × Mode)} {l : L} {m : Mode}
      {next : Unit → LockProg L Unit} (ht : P.tasks i = some ⟨held,.step (.acquire l m) next⟩)
      (hq : i ∉ P.queue l) :
      LockStep bodies P { P with queue := update P.queue l (P.queue l++[i]) }
  | grant {P : LockState L} {i : ℕ} {held : List (L × Mode)} {l : L} {m : Mode}
      {next : Unit → LockProg L Unit} {later : List ℕ}
      (ht : P.tasks i = some ⟨held,.step (.acquire l m) next⟩) (front : P.queue l = i::later)
      (free : Grantable P l m) :
      LockStep bodies P ⟨update P.tasks i (some ⟨(l,m)::held,next ()⟩),update P.queue l later⟩
  | release {P : LockState L} {i : ℕ} {held : List (L × Mode)} {l : L}
      {next : Unit → LockProg L Unit} (ht : P.tasks i = some ⟨held,.step (.release l) next⟩) :
      LockStep bodies P
        { P with tasks := update P.tasks i (some ⟨held.filter fun h => h.1 ≠ l,next ()⟩) }
  | choose {P : LockState L} {i : ℕ} {held : List (L × Mode)} {next : Bool → LockProg L Unit}
      (b : Bool) (ht : P.tasks i = some ⟨held,.step .choose next⟩) :
      LockStep bodies P { P with tasks := update P.tasks i (some ⟨held,next b⟩) }
  | finish {P : LockState L} {i : ℕ} {held : List (L × Mode)}
      (ht : P.tasks i = some ⟨held,.ret ()⟩) :
      LockStep bodies P { P with tasks := update P.tasks i none }

inductive LockReached (bodies : Set (LockProg L Unit)) : LockState L → Prop where
  | boot : LockReached bodies ⟨fun _ => none,fun _ => []⟩
  | step {P P' : LockState L} (before : LockReached bodies P) (h : LockStep bodies P P') :
      LockReached bodies P'

def Awaits (P : LockState L) (i : ℕ) (l : L) : Prop :=
  i ∈ P.queue l ∧ ∃ held m next, P.tasks i = some ⟨held,.step (.acquire l m) next⟩

def Holds (P : LockState L) (i : ℕ) (l : L) : Prop :=
  ∃ t m, P.tasks i = some t ∧ (l,m) ∈ t.held

/-- The first task waits for a lock that the second one holds, or asked for before. -/
def Blocked (P : LockState L) (i j : ℕ) : Prop :=
  ∃ l, Awaits P i l ∧ (Holds P j l ∨ Awaits P j l ∧ (P.queue l).idxOf j < (P.queue l).idxOf i)

variable (rank : L → ℕ)

/-- Every lock that is asked for ranks above those that are held. -/
def ordered {α : Type} : List L → LockProg L α → Bool
  | _, .ret _ => true
  | held, .step (.acquire l _) next =>
    held.all (fun h => rank h < rank l) && ordered (l::held) (next ())
  | held, .step (.release l) next => ordered (held.filter (· ≠ l)) (next ())
  | held, .step .choose next => ordered held (next false) && ordered held (next true)

variable {rank} {bodies : Set (LockProg L Unit)} {P P' : LockState L}

def Orderly (rank : L → ℕ) (P : LockState L) : Prop :=
  ∀ i t, P.tasks i = some t → ordered rank (t.held.map Prod.fst) t.rest

variable {i : ℕ} {l l' : L}

theorem orderly_update {t : Option (LockTask L)} {queue : L → List ℕ} (h : Orderly rank P)
    (ht : ∀ t', t = some t' → ordered rank (t'.held.map Prod.fst) t'.rest) :
    Orderly rank ⟨update P.tasks i t,queue⟩ := by
  intro j t' hj
  by_cases e : j = i
  · subst e
    exact ht t' (by simpa using hj)
  · exact h j t' (by simpa [e] using hj)

theorem orderly_step (hb : ∀ p ∈ bodies, ordered rank [] p) (h : Orderly rank P)
    (hs : LockStep bodies P P') : Orderly rank P' := by
  cases hs with
  | start hp free =>
    refine orderly_update h ?_
    rintro t' ⟨⟩
    exact hb _ hp
  | request ht hq => exact h
  | grant ht front free =>
    have ho := h _ _ ht
    rw [ordered,Bool.and_eq_true] at ho
    refine orderly_update h ?_
    rintro t' ⟨⟩
    exact ho.2
  | release ht =>
    have ho := h _ _ ht
    rw [ordered,List.filter_map] at ho
    refine orderly_update h ?_
    rintro t' ⟨⟩
    exact ho
  | choose b ht =>
    have ho := h _ _ ht
    rw [ordered,Bool.and_eq_true] at ho
    refine orderly_update h ?_
    rintro t' ⟨⟩
    cases b with
    | false => exact ho.1
    | true => exact ho.2
  | finish ht => exact orderly_update h nofun

theorem orderly_reached (hb : ∀ p ∈ bodies, ordered rank [] p)
    (h : LockReached bodies P) : Orderly rank P := by
  induction h with
  | boot => exact nofun
  | step _ hs ih => exact orderly_step hb ih hs

omit [DecidableEq L] in
theorem awaits_unique (h : Awaits P i l) (h' : Awaits P i l') : l = l' := by
  obtain ⟨-,held,m,next,ht⟩ := h
  obtain ⟨-,held',m',next',ht'⟩ := h'
  rw [ht] at ht'
  cases ht'
  rfl

/-- Along the blocking tasks the rank rises, or the place in one queue improves. -/
theorem blocked_rises {j : ℕ} (ho : Orderly rank P) (hi : Awaits P i l) (hj : Awaits P j l')
    (h : Blocked P i j) :
    rank l < rank l' ∨ l = l' ∧ (P.queue l).idxOf j < (P.queue l).idxOf i := by
  obtain ⟨l₁,h₁,h⟩ := h
  cases awaits_unique hi h₁
  rcases h with ⟨t,m,ht,hm⟩ | ⟨h,hlt⟩
  · obtain ⟨-,held,m',next,ht'⟩ := hj
    rw [ht] at ht'
    cases ht'
    have ho' := ho _ _ ht
    rw [ordered,Bool.and_eq_true,List.all_eq_true] at ho'
    exact .inl (of_decide_eq_true (ho'.1 l (List.mem_map_of_mem hm)))
  · exact .inr ⟨awaits_unique h hj,hlt⟩

theorem no_circle (ho : Orderly rank P) (i : ℕ) : ¬TransGen (Blocked P) i i := by
  intro circle
  obtain ⟨l,hi⟩ : ∃ l, Awaits P i l := by
    obtain ⟨j,⟨l,hl,-⟩,-⟩ := TransGen.head'_iff.mp circle
    exact ⟨l,hl⟩
  have rises : ∀ j, TransGen (Blocked P) i j → ∀ l', Awaits P j l' →
      rank l < rank l' ∨ l = l' ∧ (P.queue l).idxOf j < (P.queue l).idxOf i := by
    intro j hij
    induction hij with
    | single h => exact fun l' hj => blocked_rises ho hi hj h
    | tail _ h ih =>
      intro l' hj
      obtain ⟨l₁,h₁,-⟩ := id h
      rcases ih l₁ h₁ with hr | ⟨rfl,hr⟩ <;>
      rcases blocked_rises ho h₁ hj h with hr' | ⟨rfl,hr'⟩
      · exact .inl (Nat.lt_trans hr hr')
      · exact .inl hr
      · exact .inl hr'
      · exact .inr ⟨rfl,Nat.lt_trans hr' hr⟩
  rcases rises i circle l hi with h | ⟨-,h⟩
  · exact absurd h (Nat.lt_irrefl _)
  · exact absurd h (Nat.lt_irrefl _)

theorem waiting_ends {n : ℕ} (ho : Orderly rank P) (bound : ∀ l, rank l ≤ n) (i : ℕ) (l : L)
    (hi : Awaits P i l) : ∃ j, ReflTransGen (Blocked P) i j ∧ ∀ k, ¬Blocked P j k := by
  by_cases blocked : ∃ k, Blocked P i k
  · obtain ⟨k,hk⟩ := blocked
    by_cases waits : ∃ l', Awaits P k l'
    · obtain ⟨l',hl'⟩ := waits
      have rises := blocked_rises ho hi hl' hk
      obtain ⟨j,hj,free⟩ := waiting_ends ho bound k l' hl'
      exact ⟨j,.head hk hj,free⟩
    · refine ⟨k,.single hk,?_⟩
      rintro _ ⟨l',hl',-⟩
      exact waits ⟨l',hl'⟩
  · exact ⟨i,.refl,fun k hk => blocked ⟨k,hk⟩⟩
termination_by (n-rank l,(P.queue l).idxOf i)
decreasing_by
  -- A higher rank, or the same lock and a better place in its queue.
  rcases rises with h | ⟨rfl,h⟩
  · have := bound l'
    exact Prod.Lex.left _ _ (by omega)
  · exact Prod.Lex.right _ h

end Remerge.LockQueues
