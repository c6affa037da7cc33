import Remerge.Table

/-!
# Names and inodes

A disk binds names to inodes and keeps the content with the inode. A hard link
gives one inode a second name; writing through a name that exists changes what
every other name of its inode reads. `Alone` says that a name shares its inode
with no other, which is when a write can be understood by names only.
-/

set_option autoImplicit false

namespace Remerge.InodeFiles

structure Disk (N C : Type) where
  names : Table N ℕ
  inodes : List C
  bounded : ∀ n ∈ names.entries, n.2 < inodes.length

variable {N C : Type} [DecidableEq N]

namespace Disk

def empty : Disk N C where
  names := ∅
  inodes := []
  bounded := fun _ h => absurd h (by simp)

def inode (d : Disk N C) (n : N) : Option ℕ := d.names.lookup n

theorem inode_lt (d : Disk N C) {n : N} {i : ℕ} (h : d.inode n = some i) : i < d.inodes.length :=
  d.bounded ⟨n,i⟩ (AList.mem_lookup_iff.mp h)

def read (d : Disk N C) (n : N) : Option C := (d.inode n).bind fun i => d.inodes[i]?

def bind (d : Disk N C) (n : N) (i : ℕ) (hi : i < d.inodes.length) : Disk N C where
  names := d.names.insert n i
  inodes := d.inodes
  bounded := by
    intro e he
    have hl : (d.names.insert n i).lookup e.1 = some e.2 := AList.mem_lookup_iff.mpr he
    rw [AList.lookup_insert_ite] at hl
    split at hl
    · cases hl
      exact hi
    · exact d.inode_lt hl

def create (d : Disk N C) (n : N) (c : C) : Disk N C where
  names := d.names.insert n d.inodes.length
  inodes := d.inodes++[c]
  bounded := by
    intro e he
    have hl : (d.names.insert n d.inodes.length).lookup e.1 = some e.2 :=
      AList.mem_lookup_iff.mpr he
    rw [AList.lookup_insert_ite] at hl
    rw [List.length_append]
    split at hl
    · rw [← Option.some.inj hl]
      simp
    · exact Nat.lt_add_right _ (d.inode_lt hl)

def overwrite (d : Disk N C) (i : ℕ) (c : C) : Disk N C where
  names := d.names
  inodes := d.inodes.set i c
  bounded := by
    intro e he
    rw [List.length_set]
    exact d.bounded e he

def write (d : Disk N C) (n : N) (c : C) : Disk N C :=
  match d.inode n with
  | none => d.create n c
  | some i => d.overwrite i c

def keep (d : Disk N C) (p : N → Bool) : Disk N C where
  names := d.names.keep fun n _ => p n
  inodes := d.inodes
  bounded := fun e he => d.bounded e (List.mem_of_mem_filter he)

def remove (d : Disk N C) (n : N) : Disk N C := d.keep fun m => m ≠ n

def link (d : Disk N C) (a b : N) : Disk N C :=
  match h : d.inode a with
  | none => d
  | some i => d.bind b i (d.inode_lt h)

def rename (d : Disk N C) (a b : N) : Disk N C :=
  if a = b then d else (d.link a b).remove a

/-- A copy opens its target for writing before it reads, so that a copy of a
file onto itself leaves nothing. -/
def copy (d : Disk N C) (nothing : C) (a b : N) : Disk N C :=
  match d.read a with
  | none => d
  | some c => d.write b (if d.inode a = d.inode b then nothing else c)

section
variable (d : Disk N C)

@[simp] theorem inode_bind (n m : N) (i : ℕ) (hi : i < d.inodes.length) :
    (d.bind n i hi).inode m = if m = n then some i else d.inode m :=
  AList.lookup_insert_ite d.names n m i

@[simp] theorem inode_create (n m : N) (c : C) :
    (d.create n c).inode m = if m = n then some d.inodes.length else d.inode m :=
  AList.lookup_insert_ite d.names n m d.inodes.length

@[simp] theorem inode_overwrite (m : N) (i : ℕ) (c : C) : (d.overwrite i c).inode m = d.inode m :=
  rfl

theorem inode_keep (m : N) (p : N → Bool) :
    (d.keep p).inode m = if p m then d.inode m else none := by
  unfold inode keep
  rw [AList.lookup_keep]
  cases d.names.lookup m <;> simp [Option.filter]

theorem inode_link (a b m : N) :
    (d.link a b).inode m = if m = b then (d.inode a).or (d.inode b) else d.inode m := by
  unfold link
  split
  · next h =>
    split
    · next hm => rw [hm,h,Option.none_or]
    · rfl
  · next i h => rw [inode_bind,h,Option.some_or]

end

def Alone (d : Disk N C) (n : N) : Prop :=
  ∀ m, m ≠ n → d.inode n ≠ none → d.inode m ≠ d.inode n

section
variable {d : Disk N C}

theorem read_isSome (n : N) : (d.read n).isSome = (d.inode n).isSome := by
  unfold read
  cases h : d.inode n with
  | none => rfl
  | some i => simp [d.inode_lt h]

variable {n : N}

theorem read_eq_none : d.read n = none ↔ d.inode n = none := by
  have h := d.read_isSome n
  cases hr : d.read n <;> cases hi : d.inode n <;> simp_all

theorem alone_of_free (h : d.inode n = none) : d.Alone n := fun _ _ hn => absurd h hn

theorem read_write (h : d.Alone n) (c : C) (m : N) :
    (d.write n c).read m = if m = n then some c else d.read m := by
  unfold write
  split
  · next hn =>
    unfold read
    rw [inode_create]
    by_cases hm : m = n
    · simp [hm,create]
    · rw [if_neg hm,if_neg hm]
      cases hi : d.inode m with
      | none => rfl
      | some i => simp [create,List.getElem?_append_left (d.inode_lt hi)]
  · next i hn =>
    unfold read
    rw [inode_overwrite]
    by_cases hm : m = n
    · rw [if_pos hm,hm,hn]
      simp [overwrite,d.inode_lt hn]
    · rw [if_neg hm]
      have hne : d.inode m ≠ some i := by
        intro he
        exact h m hm (by simp [hn]) (he.trans hn.symm)
      cases hi : d.inode m with
      | none => rfl
      | some j =>
        have hij : i ≠ j := fun he => hne (by rw [hi,he])
        simp [overwrite,List.getElem?_set_ne hij]

theorem create_eq_write (h : d.inode n = none) (c : C) : d.create n c = d.write n c := by
  unfold write
  rw [h]

theorem read_keep (p : N → Bool) (m : N) : (d.keep p).read m = if p m then d.read m else none := by
  unfold read
  rw [inode_keep]
  split <;> rfl

theorem read_remove (n m : N) : (d.remove n).read m = if m = n then none else d.read m := by
  unfold remove
  rw [read_keep]
  by_cases h : m = n <;> simp [h]

theorem inodes_link (a b : N) : (d.link a b).inodes = d.inodes := by
  unfold link
  split <;> rfl

theorem read_link (a b m : N) :
    (d.link a b).read m = if m = b then (d.read a).or (d.read b) else d.read m := by
  unfold read
  rw [inode_link,inodes_link]
  split
  · cases h : d.inode a with
    | none => rfl
    | some i => simp [d.inode_lt h]
  · rfl

theorem read_rename {a b : N} (hab : a ≠ b) (m : N) :
    (d.rename a b).read m =
      if m = a then none else if m = b then (d.read a).or (d.read b) else d.read m := by
  unfold rename
  rw [if_neg hab,read_remove,read_link]

theorem Alone.write (h : d.Alone n) (m : N) (c : C) : (d.write m c).Alone n := by
  intro x hx hn
  unfold Disk.write at hn ⊢
  split
  · next hm =>
    rw [hm] at hn
    rw [inode_create] at hn ⊢
    rw [inode_create]
    have hnew : ∀ y, d.inode y ≠ some d.inodes.length := fun y hy =>
      absurd (d.inode_lt hy) (Nat.lt_irrefl _)
    by_cases hnm : n = m
    · rw [if_pos hnm,if_neg (fun hxm => hx (hxm.trans hnm.symm))]
      exact hnew x
    · rw [if_neg hnm] at hn ⊢
      by_cases hxm : x = m
      · rw [if_pos hxm]
        exact (hnew n).symm
      · rw [if_neg hxm]
        exact h x hx hn
  · next i hm =>
    rw [hm] at hn
    exact h x hx hn

theorem Alone.keep (h : d.Alone n) (p : N → Bool) : (d.keep p).Alone n := by
  intro x hx hn
  rw [inode_keep] at hn ⊢
  rw [inode_keep]
  by_cases hp : p n
  · rw [if_pos hp] at hn ⊢
    split
    · exact h x hx hn
    · exact hn.symm
  · rw [if_neg hp] at hn
    exact absurd rfl hn

theorem Alone.remove (h : d.Alone n) (m : N) : (d.remove m).Alone n := h.keep _

theorem Alone.link (h : d.Alone n) {a b : N} (ha : n ≠ a) (hb : n ≠ b) : (d.link a b).Alone n := by
  intro x hx hn
  rw [inode_link,if_neg hb] at hn
  rw [inode_link,inode_link d a b n,if_neg hb]
  split
  · next hxb =>
    cases hi : d.inode a with
    | none => exact h b hb.symm hn
    | some i =>
      rw [Option.some_or,← hi]
      exact h a ha.symm hn
  · exact h x hx hn

theorem Alone.rename (h : d.Alone n) {a b : N} (ha : n ≠ a) (hb : n ≠ b) :
    (d.rename a b).Alone n := by
  unfold Disk.rename
  split
  · exact h
  · exact (h.link ha hb).remove a

end

section
variable {d : Disk N C} {a b : N}

theorem read_copy (hb : d.inode b = none) (nothing : C) (m : N) :
    (d.copy nothing a b).read m = if m = b then (d.read a).or (d.read b) else d.read m := by
  unfold copy
  cases hr : d.read a with
  | none =>
    dsimp only
    rw [Option.none_or]
    split
    · next hm => rw [hm]
    · rfl
  | some c =>
    have ha : d.inode a ≠ d.inode b := by
      intro he
      rw [hb,← read_eq_none,hr] at he
      cases he
    dsimp only
    rw [if_neg ha,read_write (alone_of_free hb),Option.some_or]

theorem Alone.copy {n : N} (h : d.Alone n) (nothing : C) : (d.copy nothing a b).Alone n := by
  unfold Disk.copy
  split
  · exact h
  · exact h.write b _

end

end Disk

end Remerge.InodeFiles
