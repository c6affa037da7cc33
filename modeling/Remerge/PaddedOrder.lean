import Mathlib.Data.List.Basic
import Mathlib.Order.Compare

/-!
# Comparing lists of different lengths

Two lists are laid side by side, the shorter one continued with a filler, and the
first pair that a comparison tells apart decides. Over a comparison that is a
total preorder this is a total preorder again.
-/

set_option autoImplicit false

namespace Remerge.PaddedOrder
open Std

variable {α : Type}

def firstStrict (cmp : α → α → Ordering) : List (α × α) → Ordering
  | [] => .eq
  | p::ps => (cmp p.1 p.2).then (firstStrict cmp ps)

theorem firstStrict_append (cmp : α → α → Ordering) (ps qs : List (α × α)) :
    firstStrict cmp (ps++qs) = (firstStrict cmp ps).then (firstStrict cmp qs) := by
  induction ps with
  | nil => rfl
  | cons p ps ih => rw [List.cons_append,firstStrict,firstStrict,ih,Ordering.then_assoc]

theorem firstStrict_eq_eq_iff (cmp : α → α → Ordering) (ps : List (α × α)) :
    firstStrict cmp ps = .eq ↔ ∀ p ∈ ps, cmp p.1 p.2 = .eq := by
  induction ps with
  | nil => simp [firstStrict]
  | cons p ps ih => simp [firstStrict,Ordering.then_eq_eq,ih]

theorem then_of_ne {o o' : Ordering} (h : o ≠ .eq) : o.then o' = o := by
  cases o with
  | lt => rfl
  | eq => exact absurd rfl h
  | gt => rfl

theorem then_eq_then_iff {o o₁ o₂ : Ordering} : o.then o₁ = o.then o₂ ↔ (o = .eq → o₁ = o₂) := by
  cases o <;> simp

def padZip (pad : α) : List α → List α → List (α × α)
  | [], ys => ys.map (pad,·)
  | x::xs, [] => (x,pad)::padZip pad xs []
  | x::xs, y::ys => (x,y)::padZip pad xs ys

def paddedCompare (cmp : α → α → Ordering) (pad : α) (xs ys : List α) : Ordering :=
  firstStrict cmp (padZip pad xs ys)

variable {β : Type}

theorem padZip_map (f : α → β) (pad : α) (xs ys : List α) :
    padZip (f pad) (xs.map f) (ys.map f) = (padZip pad xs ys).map (Prod.map f f) := by
  fun_induction padZip pad xs ys with
  | case1 ys => simp [padZip]
  | case2 x xs ih => rw [List.map_cons,List.map_nil,padZip,List.map_cons,← ih]; rfl
  | case3 x xs y ys ih => rw [List.map_cons,List.map_cons,padZip,List.map_cons,← ih]; rfl

theorem firstStrict_map (cmp : β → β → Ordering) (f : α → β) (ps : List (α × α)) :
    firstStrict cmp (ps.map (Prod.map f f)) = firstStrict (fun x y => cmp (f x) (f y)) ps := by
  induction ps with
  | nil => rfl
  | cons p ps ih => rw [List.map_cons,firstStrict,firstStrict,ih]; rfl

def compareUpto (cmp : α → α → Ordering) : ℕ → (ℕ → α) → (ℕ → α) → Ordering
  | 0 => fun _ _ => .eq
  | n+1 => compareLex (fun f g => cmp (f 0) (g 0))
      (fun f g => compareUpto cmp n (fun i => f (i+1)) (fun i => g (i+1)))

theorem transCmp_on (cmp : β → β → Ordering) [TransCmp cmp] (f : α → β) :
    TransCmp (fun x y => cmp (f x) (f y)) where
  eq_swap := OrientedCmp.eq_swap
  isLE_trans := TransCmp.isLE_trans

theorem transCmp_compareUpto (cmp : α → α → Ordering) [TransCmp cmp] (n : ℕ) :
    TransCmp (compareUpto cmp n) := by
  induction n with
  | zero => exact { eq_swap := rfl, isLE_trans := fun _ _ => rfl }
  | succ n ih =>
    have := transCmp_on cmp (fun f : ℕ → α => f 0)
    have := transCmp_on (compareUpto cmp n) (fun (f : ℕ → α) i => f (i+1))
    rw [compareUpto]
    infer_instance

theorem paddedCompare_eq_compareUpto (cmp : α → α → Ordering) [ReflCmp cmp] (pad : α)
    (xs ys : List α) (n : ℕ) (hx : xs.length ≤ n) (hy : ys.length ≤ n) :
    paddedCompare cmp pad xs ys = compareUpto cmp n (xs.getD · pad) (ys.getD · pad) := by
  induction n generalizing xs ys with
  | zero =>
    obtain rfl := List.eq_nil_of_length_eq_zero (Nat.le_zero.mp hx)
    obtain rfl := List.eq_nil_of_length_eq_zero (Nat.le_zero.mp hy)
    rfl
  | succ n ih =>
    have hrest := ih xs.tail ys.tail (by rw [List.length_tail]; omega)
      (by rw [List.length_tail]; omega)
    rw [compareUpto,compareLex]
    cases xs with
    | nil =>
      cases ys with
      | nil =>
        simp only [List.tail_nil,List.getD_nil] at hrest
        simp only [List.getD_nil,ReflCmp.compare_self,Ordering.then,hrest]
      | cons y ys => simpa [paddedCompare,padZip,firstStrict] using congrArg _ hrest
    | cons x xs =>
      cases ys with
      | nil | cons y ys => simpa [paddedCompare,padZip,firstStrict] using congrArg _ hrest

instance transCmp_paddedCompare (cmp : α → α → Ordering) [TransCmp cmp] (pad : α) :
    TransCmp (paddedCompare cmp pad) where
  eq_swap {xs ys} := by
    have hx := Nat.le_max_left xs.length ys.length
    have hy := Nat.le_max_right xs.length ys.length
    have := transCmp_compareUpto cmp (max xs.length ys.length)
    rw [paddedCompare_eq_compareUpto cmp pad xs ys _ hx hy,
      paddedCompare_eq_compareUpto cmp pad ys xs _ hy hx]
    exact OrientedCmp.eq_swap
  isLE_trans {xs ys zs} hxy hyz := by
    have hx : xs.length ≤ xs.length+ys.length+zs.length := by omega
    have hy : ys.length ≤ xs.length+ys.length+zs.length := by omega
    have hz : zs.length ≤ xs.length+ys.length+zs.length := by omega
    have := transCmp_compareUpto cmp (xs.length+ys.length+zs.length)
    rw [paddedCompare_eq_compareUpto cmp pad _ _ _ hx hy] at hxy
    rw [paddedCompare_eq_compareUpto cmp pad _ _ _ hy hz] at hyz
    rw [paddedCompare_eq_compareUpto cmp pad _ _ _ hx hz]
    exact TransCmp.isLE_trans hxy hyz

end Remerge.PaddedOrder
