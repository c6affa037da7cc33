import Mathlib.Data.Fintype.Card
import Remerge.SubmittedAtoms

/-!
# Profiles that name each other

A profile directory is read after the directories its `parent` file names, and
nothing keeps a record of those already read. The reader follows the text of a
path and not a tree, so it comes back exactly if no directory it gets to leads
back to itself; the directory then unfolds to a finite profile.
-/

set_option autoImplicit false

namespace Remerge.ProfileCycles
open RustText PackageEntries SubmittedAtoms Relation

section

/-- The files of the profile directories, and where a path joined to one of them
leads if it is a directory. -/
structure ProfileDirs (D : Type) where
  parentFile : D → Option String
  packagesFile : D → Option String
  joined : D → String → Option D

variable {D : Type} (fs : ProfileDirs D)

def ProfileDirs.parents (d : D) : List D :=
  ((fs.parentFile d).map fun content => parseLines content (fs.joined d)).getD []

def ProfileDirs.ownPackages (d : D) : List String :=
  ((fs.packagesFile d).map fun content => parseLines content systemPackage).getD []

def collect {α β : Type} (f : α → Option β) : List α → Option (List β)
  | [] => some []
  | a::rest => (f a).bind fun b => (collect f rest).map (b::·)

/-- `read_profile_packages` with room for so many calls inside each other. -/
def readWithin : ℕ → D → Option (List String)
  | 0,_ => none
  | depth+1,d =>
    (collect (readWithin depth) (fs.parents d)).map fun atoms =>
      atoms.flatten++fs.ownPackages d

def unfoldWithin : ℕ → D → Option Profile
  | 0,_ => none
  | depth+1,d =>
    (collect (unfoldWithin depth) (fs.parents d)).map fun parents =>
      .dir parents (fs.packagesFile d)

def Refers (d parent : D) : Prop := parent ∈ fs.parents d

def Returns (d : D) : Prop := ∃ depth atoms, readWithin fs depth d = some atoms

end

section
variable {D : Type} {fs : ProfileDirs D}

theorem collect_map {α β γ : Type} (f : α → Option β) (g : β → γ) (as : List α) :
    collect (fun a => (f a).map g) as = (collect f as).map (List.map g) := by
  induction as with
  | nil => rfl
  | cons a rest ih =>
    rw [collect,collect,ih]
    cases f a with
    | none => rfl
    | some b => cases collect f rest <;> rfl

theorem readParents_eq (profiles : List Profile) :
    readParents profiles = (profiles.map readProfilePackages).flatten := by
  induction profiles with
  | nil => rfl
  | cons profile rest ih => rw [readParents,ih,List.map_cons,List.flatten_cons]

/-- What is read is the finite profile the directory unfolds to. -/
theorem readWithin_eq (depth : ℕ) (d : D) :
    readWithin fs depth d = (unfoldWithin fs depth d).map readProfilePackages := by
  induction depth generalizing d with
  | zero => rfl
  | succ depth ih =>
    have hread : readWithin fs depth = fun e => (unfoldWithin fs depth e).map readProfilePackages :=
      funext ih
    rw [readWithin,unfoldWithin,hread,collect_map,Option.map_map,Option.map_map]
    congr 1
    funext profiles
    simp only [Function.comp_apply,readProfilePackages,readParents_eq]
    rfl

theorem collect_isSome {α β : Type} (f : α → Option β) (as : List α) :
    (collect f as).isSome ↔ ∀ a ∈ as, (f a).isSome := by
  induction as with
  | nil => simp [collect]
  | cons a rest ih =>
    rw [List.forall_mem_cons,← ih,collect]
    cases f a <;> simp

def Within (fs : ProfileDirs D) (depth : ℕ) (d : D) : Prop :=
  (readWithin fs depth d).isSome

variable {depth : ℕ} {d : D}

theorem within_succ :
    Within fs (depth+1) d ↔ ∀ parent, Refers fs d parent → Within fs depth parent := by
  rw [Within,readWithin,Option.isSome_map]
  exact collect_isSome _ _

theorem within_mono {more : ℕ} (h : Within fs depth d) (hle : depth ≤ more) : Within fs more d := by
  induction depth generalizing d more with
  | zero => cases h
  | succ depth ih =>
    obtain ⟨n,rfl⟩ : ∃ n, more = n+1 := ⟨more-1,by omega⟩
    rw [within_succ] at h ⊢
    exact fun parent hp => ih (h parent hp) (by omega)

theorem returns_iff : Returns fs d ↔ ∃ depth, Within fs depth d :=
  exists_congr fun _ => Option.isSome_iff_exists.symm

theorem exists_within_all (ds : List D) (h : ∀ d ∈ ds, ∃ depth, Within fs depth d) :
    ∃ depth, ∀ d ∈ ds, Within fs depth d := by
  induction ds with
  | nil => exact ⟨0,fun _ hd => (List.not_mem_nil hd).elim⟩
  | cons d rest ih =>
    rw [List.forall_mem_cons] at h
    obtain ⟨n,hn⟩ := h.1
    obtain ⟨m,hm⟩ := ih h.2
    refine ⟨max n m,List.forall_mem_cons.mpr ⟨within_mono hn (Nat.le_max_left n m),?_⟩⟩
    exact fun e he => within_mono (hm e he) (Nat.le_max_right n m)

/-- No number of calls is enough on a cycle: each call makes one on the cycle again. -/
theorem not_within_of_cycle (h : TransGen (Refers fs) d d) : ¬ Within fs depth d := by
  induction depth generalizing d with
  | zero => exact fun hw => by cases hw
  | succ depth ih =>
    intro hw
    obtain ⟨parent,hp,hback⟩ := TransGen.head'_iff.mp h
    exact ih (TransGen.tail' hback hp) (within_succ.mp hw parent hp)

theorem within_of_reachable {e : D} (h : Within fs depth d) (hr : ReflTransGen (Refers fs) d e) :
    Within fs depth e := by
  induction hr with
  | refl => exact h
  | tail _ hp ih =>
    cases depth with
    | zero => cases h
    | succ depth => exact within_mono (within_succ.mp ih _ hp) (Nat.le_succ depth)

variable [Finite D]

theorem exists_within (h : ∀ e, ReflTransGen (Refers fs) d e → ¬ TransGen (Refers fs) e e) :
    ∃ depth, Within fs depth d := by
  let Reached := { e // ReflTransGen (Refers fs) d e }
  let Below : Reached → Reached → Prop := fun a b => TransGen (Refers fs) b.1 a.1
  have : IsTrans Reached Below := ⟨fun _ _ _ hab hbc => hbc.trans hab⟩
  have : Std.Irrefl Below := ⟨fun a => h a.1 a.2⟩
  have hwf : WellFounded Below := Finite.wellFounded_of_trans_of_irrefl Below
  suffices hall : ∀ a : Reached, ∃ depth, Within fs depth a.1 from hall ⟨d,.refl⟩
  intro a
  induction a using hwf.induction with
  | _ a ih =>
    obtain ⟨depth,hdepth⟩ := exists_within_all (fs.parents a.1) fun parent hp =>
      ih ⟨parent,a.2.tail hp⟩ (.single hp)
    exact ⟨depth+1,within_succ.mpr hdepth⟩

end

theorem returns_iff_acyclic {D : Type} [Finite D] (fs : ProfileDirs D) (profileDir : D) :
    Returns fs profileDir ↔
      ∀ d, ReflTransGen (Refers fs) profileDir d → ¬ TransGen (Refers fs) d d := by
  rw [returns_iff]
  constructor
  · rintro ⟨depth,h⟩ d hr hcycle
    exact not_within_of_cycle hcycle (within_of_reachable h hr)
  · exact exists_within

/-- The profile 3 has the parents 1 and 2, which share the parent 0. -/
def sharedParent : ProfileDirs (Fin 4) where
  parentFile d :=
    if d = 0 then none else if d = 3 then some "../amd64\n../desktop" else some "../base"
  packagesFile _ := some "*sys-apps/portage"
  joined _ path :=
    if path = "../base" then some 0 else if path = "../amd64" then some 1
    else if path = "../desktop" then some 2 else none

theorem shared_parent_returns :
    (∀ d, sharedParent.parents d = [[],[0],[0],[1,2]].getD d []) ∧ Returns sharedParent 3 := by
  have hparents : ∀ d, sharedParent.parents d = [[],[0],[0],[1,2]].getD d [] := by decide
  have hbelow : ∀ d e, Refers sharedParent d e → e < d := by
    intro d e h
    rw [Refers,hparents] at h
    revert d e
    decide
  refine ⟨hparents,(returns_iff_acyclic sharedParent 3).mpr fun d _ hcycle => ?_⟩
  have hless : ∀ e, TransGen (Refers sharedParent) d e → e < d := by
    intro e h
    induction h with
    | single h => exact hbelow d _ h
    | tail _ h ih => exact (hbelow _ _ h).trans ih
  exact lt_irrefl d (hless d hcycle)

def ownParent : ProfileDirs Unit :=
  ⟨fun _ => some ".",fun _ => some "*sys-apps/portage",
    fun _ path => if path = "." then some () else none⟩

/-- A profile that is its own parent is read without end. -/
theorem own_parent_never_returns : ¬ Returns ownParent () := by
  rw [returns_iff]
  rintro ⟨depth,h⟩
  have hself : Refers ownParent () () := by
    have hp : ownParent.parents () = [()] := by decide
    rw [Refers,hp]
    exact List.mem_singleton_self ()
  exact not_within_of_cycle (.single hself) h

end Remerge.ProfileCycles
