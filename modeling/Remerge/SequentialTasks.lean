import Remerge.Interleaving

/-!
# Tasks that do not overlap

When a task is only started while no other one is there, the rest of its
program runs as if alone. A property of the shared state between the parts of
a task can then be carried along with `Safely`, without a monitor. Losing the
task at any point falls back to the property of a state without tasks.
-/

set_option autoImplicit false

namespace Remerge.SequentialTasks
open StepProgram Interleaving Function

variable {K Op : Type} {Res : Op → Type} {St Or : Type}

/-- What is established part by part: the states in which a task may continue
with a kind, the answers it may get and the states it may act in. -/
structure Outline (sys : System K Op Res St Or) where
  holds : St → Option K → Prop
  admitted : K → (o : Op) → Res o → Prop
  guard : Op → St → Prop
  opens : ∀ s k, sys.starts k → holds s none → holds s (some k)
  proceeds : ∀ s k, holds s (some k) → Safely sys.sem (admitted k) guard (sys.body k) holds s
  idle : ∀ s k, holds s (some k) → holds s none
  idle_of_guard : ∀ o s, guard o s → holds s none
  solitary : ∀ o, sys.spawns o = none

variable {sys : System K Op Res St Or}

/-- At most one task, with the rest of its program safe from here. -/
inductive Outline.Alone (O : Outline sys) (P : Pool K Op Res St) : Prop where
  | idle (empty : ∀ i, P.tasks i = none) (holds : O.holds P.shared none)
  | busy (i : ℕ) (k : K) (p : Prog Op Res (Option K)) (task : P.tasks i = some ⟨k,p⟩)
      (only : ∀ j, j ≠ i → P.tasks j = none)
      (safe : Safely sys.sem (O.admitted k) O.guard p O.holds P.shared)

def Outline.Shows (O : Outline sys) (s s' : St) : Label K Op Res → Prop
  | .start _ _ => True
  | .act _ _ o _ => O.guard o s
  | .next _ _ k' => O.holds s' k'

structure Outline.Met (O : Outline sys) (cond : Condition K Op Res St) : Prop where
  alone : ∀ s kinds j k, cond s kinds (.start j k) → ∀ i, kinds i = none
  admitted : ∀ s kinds i k o r, cond s kinds (.act i k o r) → O.admitted k o r

variable {O : Outline sys} {P P' : Pool K Op Res St} {i : ℕ} {k : K} {p : Prog Op Res (Option K)}
  {cond : Condition K Op Res St}

theorem Outline.Alone.task (h : O.Alone P) (ht : P.tasks i = some ⟨k,p⟩) :
    (∀ j, j ≠ i → P.tasks j = none) ∧ Safely sys.sem (O.admitted k) O.guard p O.holds P.shared := by
  cases h with
  | idle empty _ => exact absurd ht (by simp [empty i])
  | busy i' k' p' task only safe =>
    by_cases hi : i = i'
    · subst hi
      have he := task.symm.trans ht
      cases he
      exact ⟨only,safe⟩
    · exact absurd ht (by simp [only i hi])

theorem Outline.Alone.to_idle (h : O.Alone P) : O.holds P.shared none := by
  cases h with
  | idle _ holds => exact holds
  | busy i k p task only safe =>
    cases p with
    | ret k' =>
      have hk : O.holds P.shared k' := safe
      cases k' with
      | none => exact hk
      | some k' => exact O.idle _ _ hk
    | step o next => exact O.idle_of_guard _ _ safe.1

theorem Outline.Alone.update (s : St) (only : ∀ j, j ≠ i → P.tasks j = none)
    (safe : Safely sys.sem (O.admitted k) O.guard p O.holds s) :
    O.Alone ⟨s,update P.tasks i (some ⟨k,p⟩)⟩ := by
  apply Outline.Alone.busy i k p
  · exact update_self i _ P.tasks
  · intro j hj
    exact (update_of_ne hj _ P.tasks).trans (only j hj)
  · exact safe

theorem Outline.Alone.step (met : O.Met cond) (h : O.Alone P) {l : Label K Op Res}
    (hs : Step sys P l P') (hc : cond P.shared P.kinds l) :
    O.Alone P' ∧ O.Shows P.shared P'.shared l := by
  cases hs with
  | @start k j hk free =>
    have empty : ∀ i, P.tasks i = none := fun i =>
      Option.map_eq_none_iff.mp (met.alone _ _ _ _ hc i)
    have hsafe := O.proceeds _ _ (O.opens _ _ hk h.to_idle)
    exact ⟨Outline.Alone.update P.shared (fun i _ => empty i) hsafe,trivial⟩
  | @act i j k o next w s' r ht hsem free =>
    have hb := h.task ht
    have hsafe := hb.2.2 _ _ _ hsem (met.admitted _ _ _ _ _ _ hc)
    have hspawn : ∀ tasks, sys.spawn o j tasks = tasks := by
      intro tasks
      simp [System.spawn,O.solitary o]
    refine ⟨?_,hb.2.1⟩
    rw [hspawn]
    exact Outline.Alone.update s' hb.1 hsafe
  | @next i k k' ht =>
    have hb := h.task ht
    have hk : O.holds P.shared k' := hb.2
    refine ⟨?_,hk⟩
    cases k' with
    | none =>
      apply Outline.Alone.idle
      · intro j
        by_cases hj : j = i
        · subst hj
          exact update_self j _ P.tasks
        · exact (update_of_ne hj _ P.tasks).trans (hb.1 j hj)
      · exact hk
    | some k' => exact Outline.Alone.update P.shared hb.1 (O.proceeds _ _ hk)

/-- Whatever is reached by tasks that do not overlap has at most one of them,
and the rest of its program is safe. -/
theorem Outline.reached (met : O.Met cond) {s₀ : St} (start : O.holds s₀ none)
    (h : Reached sys cond s₀ P) : O.Alone P := by
  induction h with
  | boot => exact .idle (fun _ => rfl) start
  | step _ hs hc ih => exact (ih.step met hs hc).1
  | crash _ ih => exact .idle (fun _ => rfl) ih.to_idle

end Remerge.SequentialTasks
