import Mathlib.Data.List.AList
import Mathlib.Tactic.Common

/-!
# Finite tables

Association lists without repeated keys, with the operations a shared map is
used through: look-up, insertion, removal, an update in place and a filter.
The number of entries with a property is tracked through each of them.
-/

set_option autoImplicit false

abbrev Remerge.Table (κ ν : Type) : Type := AList (fun _ : κ => ν)

namespace AList
open Remerge

variable {κ ν : Type}

def count (t : Table κ ν) (p : ν → Bool) : ℕ := t.entries.countP (fun e => p e.2)

def values (t : Table κ ν) : List ν := t.entries.map (fun e => e.2)

theorem nodupKeys_filter (t : Table κ ν) (p : κ → ν → Bool) :
    (t.entries.filter (fun e => p e.1 e.2)).NodupKeys :=
  t.nodupKeys.sublist List.filter_sublist

def keep (t : Table κ ν) (p : κ → ν → Bool) : Table κ ν :=
  ⟨t.entries.filter (fun e => p e.1 e.2),nodupKeys_filter t p⟩

theorem nodupKeys_map (t : Table κ ν) (f : ν → ν) :
    (t.entries.map fun e => (⟨e.1,f e.2⟩ : Sigma fun _ : κ => ν)).NodupKeys := by
  have h := t.nodupKeys
  unfold List.NodupKeys at h ⊢
  simpa [List.keys,Function.comp_def] using h

def mapValues (t : Table κ ν) (f : ν → ν) : Table κ ν :=
  ⟨t.entries.map fun e => ⟨e.1,f e.2⟩,nodupKeys_map t f⟩

theorem count_keep_le (t : Table κ ν) (p : ν → Bool) (q : κ → ν → Bool) :
    (t.keep q).count p ≤ t.count p :=
  List.Sublist.countP_le List.filter_sublist

variable [DecidableEq κ]

def modify (t : Table κ ν) (k : κ) (f : ν → ν) : Table κ ν :=
  match t.lookup k with
  | none => t
  | some v => t.insert k (f v)

theorem mem_values (t : Table κ ν) (v : ν) : v ∈ t.values ↔ ∃ k, t.lookup k = some v := by
  constructor
  · intro h
    obtain ⟨⟨k,w⟩,hm,rfl⟩ := List.mem_map.mp h
    exact ⟨k,mem_lookup_iff.mpr hm⟩
  · rintro ⟨k,hk⟩
    exact List.mem_map.mpr ⟨⟨k,v⟩,mem_lookup_iff.mp hk,rfl⟩

theorem lookup_insert_ite (t : Table κ ν) (k k' : κ) (v : ν) :
    (t.insert k v).lookup k' = if k' = k then some v else t.lookup k' := by
  by_cases h : k' = k
  · subst h
    rw [lookup_insert,if_pos rfl]
  · rw [lookup_insert_ne h,if_neg h]

theorem lookup_erase_ite (t : Table κ ν) (k k' : κ) :
    (t.erase k).lookup k' = if k' = k then none else t.lookup k' := by
  by_cases h : k' = k
  · subst h
    rw [lookup_erase,if_pos rfl]
  · rw [lookup_erase_ne h,if_neg h]

theorem lookup_modify (t : Table κ ν) (k k' : κ) (f : ν → ν) :
    (t.modify k f).lookup k' = if k' = k then (t.lookup k).map f else t.lookup k' := by
  unfold modify
  cases hk : t.lookup k with
  | none =>
    by_cases h : k' = k
    · rw [if_pos h,h,hk]
      rfl
    · rw [if_neg h]
  | some v => exact lookup_insert_ite t k k' (f v)

theorem lookup_keep (t : Table κ ν) (p : κ → ν → Bool) (k : κ) :
    (t.keep p).lookup k = (t.lookup k).filter (p k) := by
  apply Option.ext
  intro v
  have h1 : (t.keep p).lookup k = some v ↔ ⟨k,v⟩ ∈ (t.keep p).entries := mem_lookup_iff
  have h2 : t.lookup k = some v ↔ ⟨k,v⟩ ∈ t.entries := mem_lookup_iff
  rw [h1,Option.filter_eq_some_iff,h2]
  simp [keep]

theorem lookup_mapValues (t : Table κ ν) (f : ν → ν) (k : κ) :
    (t.mapValues f).lookup k = (t.lookup k).map f := by
  apply Option.ext
  intro v
  have h1 : (t.mapValues f).lookup k = some v ↔ ⟨k,v⟩ ∈ (t.mapValues f).entries := mem_lookup_iff
  have h2 : ∀ u, t.lookup k = some u ↔ ⟨k,u⟩ ∈ t.entries := fun u => mem_lookup_iff
  rw [h1,Option.map_eq_some_iff]
  constructor
  · intro h
    obtain ⟨⟨k',u⟩,hm,he⟩ := List.mem_map.mp h
    cases he
    exact ⟨u,(h2 u).mpr hm,rfl⟩
  · rintro ⟨u,hu,rfl⟩
    exact List.mem_map.mpr ⟨⟨k,u⟩,(h2 u).mp hu,rfl⟩

def share (t : Table κ ν) (p : ν → Bool) (k : κ) : ℕ :=
  match t.lookup k with
  | none => 0
  | some v => if p v then 1 else 0

theorem count_eq_erase (t : Table κ ν) (p : ν → Bool) (k : κ) :
    t.count p = (t.erase k).count p + t.share p k := by
  by_cases hk : k ∈ t.entries.keys
  · obtain ⟨v,l,l',-,he,hr⟩ := List.exists_of_kerase hk
    have hv : t.lookup k = some v := mem_lookup_iff.mpr (by rw [he]; simp)
    have hc : (t.erase k).entries = l++l' := hr
    unfold count share
    rw [hv,he,hc]
    simp only [List.countP_append,List.countP_cons]
    omega
  · have he : (t.erase k).entries = t.entries := List.kerase_of_notMem_keys hk
    have hv : t.lookup k = none := lookup_eq_none.mpr hk
    unfold count share
    rw [hv,he]
    rfl

theorem count_insert (t : Table κ ν) (p : ν → Bool) (k : κ) (v : ν) :
    (t.insert k v).count p = (t.erase k).count p + if p v then 1 else 0 := by
  have h : (t.insert k v).entries = ⟨k,v⟩::(t.erase k).entries := rfl
  unfold count
  rw [h,List.countP_cons]

theorem share_erase (t : Table κ ν) (p : ν → Bool) (k k' : κ) :
    (t.erase k).share p k' = if k' = k then 0 else t.share p k' := by
  unfold share
  rw [lookup_erase_ite]
  by_cases h : k' = k <;> simp [h]

variable {t t' : Table κ ν} {p : ν → Bool}

theorem count_congr (h : ∀ k, t.share p k = t'.share p k) : t.count p = t'.count p := by
  have keys : ∀ t : Table κ ν, t.count p = (t.keep fun _ v => p v).keys.length := by
    intro t
    rw [AList.keys,List.keys,List.length_map]
    exact List.countP_eq_length_filter
  have mem : ∀ (t : Table κ ν) (k : κ), k ∈ (t.keep fun _ v => p v).keys ↔ t.share p k = 1 := by
    intro t k
    rw [← AList.mem_keys,← lookup_isSome,lookup_keep]
    unfold share
    cases t.lookup k with
    | none => simp
    | some v => by_cases hp : p v = true <;> simp [hp]
  rw [keys,keys]
  refine ((List.perm_ext_iff_of_nodup (keys_nodup _) (keys_nodup _)).mpr fun k => ?_).length_eq
  rw [mem,mem,h]

theorem count_change (k : κ) (h : ∀ k', k' ≠ k → t.share p k' = t'.share p k') :
    t'.count p+t.share p k = t.count p+t'.share p k := by
  have he : (t.erase k).count p = (t'.erase k).count p := by
    refine count_congr fun k' => ?_
    rw [share_erase,share_erase]
    split
    · rfl
    · next hk => exact h k' hk
  rw [count_eq_erase t p k,count_eq_erase t' p k,he]
  omega

theorem count_insert_le (t : Table κ ν) (p : ν → Bool) (k : κ) (v : ν) :
    (t.insert k v).count p ≤ t.count p+1 := by
  rw [count_insert,count_eq_erase t p k]
  split <;> omega

theorem count_insert_over (t : Table κ ν) (p : ν → Bool) {k : κ} {u v : ν}
    (hk : t.lookup k = some v) (h : p u → p v) :
    (t.insert k u).count p ≤ t.count p := by
  rw [count_eq_erase t p k,count_insert]
  unfold share
  rw [hk]
  split
  · next hp => simp [h hp]
  · omega

theorem count_modify_le (t : Table κ ν) (p : ν → Bool) (k : κ) (f : ν → ν)
    (h : ∀ v, t.lookup k = some v → p (f v) → p v) :
    (t.modify k f).count p ≤ t.count p := by
  unfold modify
  cases hk : t.lookup k with
  | none => exact le_rfl
  | some v => exact count_insert_over t p hk (h v hk)

end AList
