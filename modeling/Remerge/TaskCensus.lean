import Mathlib.Data.Finset.Card
import Remerge.Interleaving

/-!
# Counting tasks

How many tasks of a system are in a state with a given property, and how that
number moves with one step. New tasks and ending tasks do not count, so only
the acting task can change it.
-/

set_option autoImplicit false

namespace Remerge.TaskCensus
open StepProgram Interleaving Function

variable {K Op : Type} {Res : Op → Type} {St Or Q : Type} {g g' : Ghost K Q} {p : K × Q → Bool}
  {n : ℕ}

def Census (g : Ghost K Q) (p : K × Q → Bool) (n : ℕ) : Prop :=
  ∃ F : Finset ℕ, (∀ i, i ∈ F ↔ (g i).any p) ∧ F.card = n

def weight (p : K × Q → Bool) (x : Option (K × Q)) : ℕ := if x.any p then 1 else 0

theorem weight_of_false {x : K × Q} (h : p x = false) : weight p (some x) = 0 := by
  simp [weight,h]

theorem census_le (h : Census g p n) (F : Finset ℕ) (hF : ∀ i, (g i).any p → i ∈ F) :
    n ≤ F.card := by
  obtain ⟨G,hG,rfl⟩ := h
  exact Finset.card_le_card fun i hi => hF i ((hG i).mp hi)

theorem census_pos (h : Census g p n) {i : ℕ} (hi : (g i).any p) : 0 < n := by
  obtain ⟨G,hG,rfl⟩ := h
  exact Finset.card_pos.mpr ⟨i,(hG i).mpr hi⟩

theorem census_none (h : ∀ i, (g i).any p = false) : Census g p 0 :=
  ⟨∅,fun i => by simp [h i],rfl⟩

theorem census_eq_zero (h : Census g p n) (none : ∀ i, (g i).any p = false) : n = 0 :=
  Nat.le_zero.mp (census_le h ∅ fun i hi => by simp [none i] at hi)

theorem census_update (h : Census g p n) (i : ℕ) (x : Option (K × Q)) :
    ∃ m, Census (update g i x) p m ∧ m+weight p (g i) = n+weight p x := by
  obtain ⟨F,hF,rfl⟩ := h
  have others : ∀ j, j ≠ i → (j ∈ F ↔ (update g i x j).any p) := by
    intro j hj
    rw [update_of_ne hj]
    exact hF j
  by_cases hx : x.any p
  · refine ⟨_,⟨insert i F,fun j => ?_,rfl⟩,?_⟩
    · by_cases hj : j = i
      · subst hj
        simp [hx]
      · rw [Finset.mem_insert,← others j hj]
        simp [hj]
    · by_cases hi : i ∈ F
      · simp [weight,hx,(hF i).mp hi,Finset.insert_eq_self.mpr hi]
      · have hn : (g i).any p = false := by simpa using mt (hF i).mpr hi
        simp [weight,hx,hn,Finset.card_insert_of_notMem hi]
  · have hx : x.any p = false := by simpa using hx
    refine ⟨_,⟨F.erase i,fun j => ?_,rfl⟩,?_⟩
    · by_cases hj : j = i
      · subst hj
        simp [hx]
      · rw [Finset.mem_erase,← others j hj]
        simp [hj]
    · by_cases hi : i ∈ F
      · have hcard := Finset.card_erase_add_one hi
        simp [weight,hx,(hF i).mp hi,hcard]
      · have hn : (g i).any p = false := by simpa using mt (hF i).mpr hi
        simp [weight,hx,hn,Finset.erase_eq_of_notMem hi]

theorem census_same {i : ℕ} {x : Option (K × Q)} (h : Census g p n)
    (hw : weight p (g i) = weight p x) : Census (update g i x) p n := by
  obtain ⟨m,hm,e⟩ := census_update h i x
  have : m = n := by omega
  exact this ▸ hm

variable {sys : System K Op Res St Or} {D : Discipline K Op Res Q} {s s' : St}

theorem weight_task (init : ∀ k, p (D.task k) = false) (x : Option K) :
    weight p (x.map D.task) = 0 := by
  cases x with
  | none => rfl
  | some k => exact weight_of_false (init k)

theorem census_turn {l : Label K Op Res} (h : GhostStep sys D s g l s' g')
    (quiet : ∀ i k o r, l ≠ .act i k o r) (init : ∀ k, p (D.task k) = false)
    (final : ∀ k q k', D.final k q k' → p (k,q) = false) (hc : Census g p n) :
    Census g' p n := by
  cases h with
  | start hk free =>
    refine census_same hc ?_
    rw [free,weight_of_false (init _)]
    rfl
  | next ht ends =>
    refine census_same hc ?_
    rw [ht,weight_of_false (final _ _ _ ends),weight_task init]
  | act ht allowed hs free => exact absurd rfl (quiet _ _ _ _)

theorem census_act {i : ℕ} {k : K} {q : Q} {o : Op} {r : Res o}
    (h : GhostStep sys D s g (.act i k o r) s' g') (init : ∀ k, p (D.task k) = false)
    (hc : Census g p n) (ht : g i = some (k,q)) :
    ∃ m, Census g' p m ∧
      m+weight p (some (k,q)) = n+weight p (some (k,(D.monitor k).next q o r)) := by
  cases h with
  | act ht' allowed hs free =>
    rename_i j q' w
    obtain rfl : q' = q := congrArg Prod.snd (Option.some.inj (ht'.symm.trans ht))
    have hne : j ≠ i := fun e => by simp [e,ht] at free
    have hj : update g i (some (k,(D.monitor k).next q' o r)) j = none := by
      rw [update_of_ne hne]
      exact free
    obtain ⟨m,hm,e⟩ := census_update hc i (some (k,(D.monitor k).next q' o r))
    rw [ht] at e
    rw [Discipline.spawn_eq D sys o hj]
    refine ⟨m,census_same hm ?_,e⟩
    rw [hj,weight_task init]
    rfl

end Remerge.TaskCensus
