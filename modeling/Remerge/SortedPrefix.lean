import Mathlib.Data.List.Sort

/-!
# Sorting across a threshold

Insertion sort keeps the order of equal elements. If every element below a
threshold comes strictly before every element above it, the sorted list is the
sorted lower part followed by the sorted upper part. Where no two keys are equal,
an element's place is the number of elements with a smaller key.
-/

set_option autoImplicit false

namespace Remerge.SortedPrefix

section
variable {α : Type} (r : α → α → Prop) [DecidableRel r]

theorem orderedInsert_append_left (a : α) (xs ys : List α) (h : ∀ y ∈ ys, r a y) :
    (xs++ys).orderedInsert r a = xs.orderedInsert r a++ys := by
  induction xs with
  | nil =>
    cases ys with
    | nil => rfl
    | cons y ys =>
      rw [List.nil_append,List.orderedInsert_cons_of_le r ys (h y List.mem_cons_self)]
      rfl
  | cons x xs ih =>
    simp only [List.cons_append,List.orderedInsert_cons]
    split
    · rfl
    · rw [ih]
      rfl

theorem orderedInsert_append_right (a : α) (xs ys : List α) (h : ∀ x ∈ xs, ¬r a x) :
    (xs++ys).orderedInsert r a = xs++ys.orderedInsert r a := by
  induction xs with
  | nil => rfl
  | cons x xs ih =>
    rw [List.cons_append,List.orderedInsert_cons,if_neg (h x List.mem_cons_self),
      ih fun x' hx => h x' (List.mem_cons_of_mem _ hx)]
    rfl

def Threshold (p : α → Bool) : Prop :=
  ∀ a b, p a → p b = false → r a b ∧ ¬r b a

variable {r}

theorem insertionSort_split {p : α → Bool} (h : Threshold r p) (l : List α) :
    l.insertionSort r = (l.filter p).insertionSort r++(l.filter fun a => !p a).insertionSort r := by
  induction l with
  | nil => rfl
  | cons a l ih =>
    rw [List.insertionSort_cons,ih]
    cases hp : p a with
    | true =>
      rw [orderedInsert_append_left]
      · simp [hp]
      · intro b hb
        have hm := List.mem_filter.mp ((List.mem_insertionSort r).mp hb)
        exact (h a b hp (by simpa using hm.2)).1
    | false =>
      rw [orderedInsert_append_right]
      · simp [hp]
      · intro b hb
        have hm := List.mem_filter.mp ((List.mem_insertionSort r).mp hb)
        exact (h b a hm.2 hp).2

variable [Std.Total r] [IsTrans α r]

theorem before_of_mem_take {l : List α} {n : ℕ} {x y : α} (hx : x ∈ (l.insertionSort r).take n)
    (hy : y ∈ l) (hn : y ∉ (l.insertionSort r).take n) : r x y := by
  have hsorted := List.pairwise_insertionSort r l
  rw [← List.take_append_drop n (l.insertionSort r),List.pairwise_append] at hsorted
  refine hsorted.2.2 x hx y ?_
  have hm := (List.mem_insertionSort r).mpr hy
  rw [← List.take_append_drop n (l.insertionSort r)] at hm
  exact (List.mem_append.mp hm).resolve_left hn

end

variable {α β : Type} [LinearOrder β] (key : α → β)

def byKey (a b : α) : Prop := key a ≤ key b

instance : DecidableRel (byKey key) := fun a b => inferInstanceAs (Decidable (key a ≤ key b))

instance : Std.Total (byKey key) := ⟨fun a b => le_total (key a) (key b)⟩

instance : IsTrans α (byKey key) := ⟨fun _ _ _ hab hbc => le_trans hab hbc⟩

def rank (l : List α) (x : α) : ℕ := (l.filter fun z => key z < key x).length

theorem rank_cons (a : α) (l : List α) (x : α) :
    rank key (a::l) x = (if key a < key x then 1 else 0)+rank key l x := by
  unfold rank
  rw [List.filter_cons]
  split <;> simp_all [Nat.add_comm]

variable {l : List α}

theorem rank_perm {l' : List α} (h : l.Perm l') (x : α) : rank key l x = rank key l' x :=
  (h.filter _).length_eq

theorem pairwise_lt_insertionSort (h : (l.map key).Nodup) :
    (l.insertionSort (byKey key)).Pairwise fun a b => key a < key b := by
  have hle := List.pairwise_insertionSort (byKey key) l
  have hne : (l.insertionSort (byKey key)).Pairwise fun a b => key a ≠ key b :=
    List.pairwise_map.mp (((List.perm_insertionSort (byKey key) l).map key).nodup_iff.mpr h)
  exact (List.pairwise_and_iff.mpr ⟨hle,hne⟩).imp fun h => lt_of_le_of_ne h.1 h.2

theorem mem_take_of_sorted (h : l.Pairwise fun a b => key a < key b) (j : ℕ) {x : α} (hx : x ∈ l) :
    x ∈ l.take j ↔ rank key l x < j := by
  induction l generalizing j with
  | nil => cases hx
  | cons a l ih =>
    obtain ⟨ha,hl⟩ := List.pairwise_cons.mp h
    cases j with
    | zero => simp
    | succ j =>
      rw [List.take_succ_cons,List.mem_cons,rank_cons]
      rcases List.mem_cons.mp hx with rfl | hx
      · have hzero : rank key l x = 0 := by
          rw [rank,List.length_eq_zero_iff,List.filter_eq_nil_iff]
          intro z hz
          simpa using (ha z hz).le
        simp [hzero]
      · have hne : x ≠ a := fun he => absurd (ha x hx) (he ▸ lt_irrefl _)
        rw [if_pos (ha x hx),ih hl j hx]
        simp only [hne,false_or]
        omega

theorem mem_take_insertionSort (h : (l.map key).Nodup) (j : ℕ) {x : α} (hx : x ∈ l) :
    x ∈ (l.insertionSort (byKey key)).take j ↔ rank key l x < j := by
  rw [← rank_perm key (List.perm_insertionSort (byKey key) l)]
  exact mem_take_of_sorted key (pairwise_lt_insertionSort key h) j
    ((List.mem_insertionSort _).mpr hx)

theorem length_filter_not_mem_take [DecidableEq α] (h : (l.map key).Nodup) (j : ℕ) :
    (l.filter fun x => x ∉ (l.insertionSort (byKey key)).take j).length = l.length-j := by
  have hperm := List.perm_insertionSort (byKey key) l
  have hnodup : (l.insertionSort (byKey key)).Nodup :=
    hperm.nodup_iff.mpr (List.Nodup.of_map key h)
  rw [← (hperm.filter _).length_eq,← hperm.length_eq]
  generalize l.insertionSort (byKey key) = s at hnodup
  have hfilter : (s.filter fun x => x ∉ s.take j) = s.drop j := by
    obtain ⟨-,-,hdisjoint⟩ := List.nodup_append.mp ((List.take_append_drop j s).symm ▸ hnodup)
    have hleft : ((s.take j).filter fun x => x ∉ s.take j) = [] := by
      rw [List.filter_eq_nil_iff]
      intro x hx
      simpa using hx
    have hright : ((s.drop j).filter fun x => x ∉ s.take j) = s.drop j := by
      rw [List.filter_eq_self]
      intro x hx
      simpa using fun hm => hdisjoint x hm x hx rfl
    calc
      _ = (s.take j++s.drop j).filter fun x => x ∉ s.take j := by rw [List.take_append_drop]
      _ = s.drop j := by rw [List.filter_append,hleft,hright,List.nil_append]
  rw [hfilter,List.length_drop]

end Remerge.SortedPrefix
