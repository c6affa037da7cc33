import Remerge.RustText

/-!
# The profile link of a client and of its worker

The client sends what follows the first "profiles/" in the target of its
make.profile link. The worker looks for a directory of that name below the
profiles of each repository and links to the first one.
-/

set_option autoImplicit false

namespace Remerge.ProfileLink
open RustText

def afterFirst (part : List Char) : List Char → Option (List Char)
  | [] => if part.isEmpty then some [] else none
  | c::cs =>
    if part.isPrefixOf (c::cs) then some ((c::cs).drop part.length) else afterFirst part cs

def profilesMark : List Char := ['p','r','o','f','i','l','e','s','/']

/-- `read_profile`, given the target of the client's link if there is one. -/
def readProfile (target : Option String) : String :=
  match target with
  | some text => String.ofList ((afterFirst profilesMark text.toList).getD text.toList)
  | none => "unknown"

def profileDir (location profile : String) : String := location++"/profiles/"++profile

def gentooLocation : String := "/var/db/repos/gentoo"

/-- The target of the link that `set_profile_inner` makes, if it makes one. It
leaves a real directory at the link's place alone. -/
def setProfileInner (isDir : String → Bool) (realDirectory : Bool) (profile : String)
    (repoLocations : List String) : Option String :=
  if profile = "" ∨ profile = "unknown" then none
  else
    let target := ((repoLocations.map (profileDir · profile)).find? isDir).getD
      (profileDir gentooLocation profile)
    if isDir target && !realDirectory then some target else none

theorem afterFirst_self (rest : List Char) :
    afterFirst profilesMark (profilesMark++rest) = some rest := by
  have htext : profilesMark = 'p'::['r','o','f','i','l','e','s','/'] := rfl
  have hpre : profilesMark.isPrefixOf (profilesMark++rest) := by
    rw [List.isPrefixOf_iff_prefix]
    exact List.prefix_append _ _
  rw [htext,List.cons_append] at hpre ⊢
  rw [afterFirst,if_pos hpre,← List.cons_append,List.drop_left]

theorem eq_mark_of_slash {cs : List Char} (h : cs <+: profilesMark)
    (hlast : cs.getLast? = some '/') : cs = profilesMark := by
  have htake : ∀ n ≤ 9, (profilesMark.take n).getLast? = some '/' →
      profilesMark.take n = profilesMark := by decide
  have hcs := List.prefix_iff_eq_take.mp h
  have hlen : cs.length ≤ 9 := h.length_le
  rw [hcs] at hlast ⊢
  exact htake _ hlen hlast

theorem not_prefix_append {cs : List Char} (rest : List Char) (hlast : cs.getLast? = some '/')
    (h : ¬profilesMark <+: cs) : ¬profilesMark <+: cs++rest := by
  intro hpre
  rcases List.prefix_or_prefix_of_prefix hpre (List.prefix_append cs rest) with hm | hm
  · exact h hm
  · rw [eq_mark_of_slash hm hlast] at h
    exact h (List.prefix_refl _)

theorem afterFirst_append {front : List Char} (rest : List Char)
    (hlast : front.getLast? = some '/') : afterFirst profilesMark (front++rest) =
      ((afterFirst profilesMark front).map (·++rest)).or (afterFirst profilesMark rest) := by
  induction front with
  | nil => simp at hlast
  | cons c front ih =>
    by_cases hpre : profilesMark <+: c::front
    · have hwhole : profilesMark <+: c::(front++rest) :=
        hpre.trans (List.prefix_append (c::front) rest)
      rw [List.cons_append,afterFirst,if_pos (List.isPrefixOf_iff_prefix.mpr hwhole),afterFirst,
        if_pos (List.isPrefixOf_iff_prefix.mpr hpre),← List.cons_append,
        List.drop_append_of_le_length hpre.length_le]
      rfl
    · have hwhole : ¬profilesMark <+: c::(front++rest) := not_prefix_append rest hlast hpre
      rw [List.cons_append,afterFirst,if_neg (by simpa using hwhole),afterFirst,
        if_neg (by simpa using hpre)]
      cases front with
      | nil => rfl
      | cons d front => exact ih (by simpa using hlast)

theorem toList_slashProfiles : "/profiles/".toList = '/'::profilesMark := by decide

theorem toList_profiles : "profiles/".toList = profilesMark := by decide

theorem readProfile_link (spelled profile : String) :
    readProfile (some (profileDir spelled profile)) =
      match afterFirst profilesMark (spelled.toList++['/']) with
      | none => profile
      | some v => String.ofList v++"profiles/"++profile := by
  have htext : (profileDir spelled profile).toList =
      (spelled.toList++['/'])++(profilesMark++profile.toList) := by
    rw [profileDir,String.toList_append,String.toList_append,toList_slashProfiles]
    simp
  rw [readProfile,htext,afterFirst_append _ (by simp),afterFirst_self]
  cases afterFirst profilesMark (spelled.toList++['/']) with
  | none => simp
  | some v =>
    rw [← String.toList_inj,String.toList_append,String.toList_append,toList_profiles]
    simp

variable (isDir : String → Bool) (realDirectory : Bool) (locations : List String)

/-- The link of the client names a profile of the repository at `location`, which
it spells as `spelled`. Without "profiles/" in the spelling the client sends the
profile alone, and no other repository may have one of that name. Otherwise it
sends a part of the location too, which has to lie below another repository's
profiles in just that way. -/
def Reproducible (location spelled profile : String) : Prop :=
  realDirectory = false ∧
    match afterFirst profilesMark (spelled.toList++['/']) with
    | none => profile ≠ "" ∧ profile ≠ "unknown" ∧
        ∀ loc ∈ locations, isDir (profileDir loc profile) → loc = location
    | some v => ∃ base ∈ gentooLocation::locations,
        location++"/" = base++"/profiles/"++String.ofList v ∧ ∀ loc ∈ locations,
          isDir (profileDir loc (String.ofList v++"profiles/"++profile)) → loc = base

variable {isDir realDirectory locations} {profile target : String}

theorem profileDir_inj {a b : String} : profileDir a profile = profileDir b profile ↔ a = b := by
  rw [← String.toList_inj,← String.toList_inj]
  simp [profileDir]

theorem setProfileInner_cons {loc : String} {rest : List String}
    (hdir : isDir (profileDir loc profile))
    (h : setProfileInner isDir realDirectory profile (loc::rest) = some target) :
    target = profileDir loc profile := by
  unfold setProfileInner at h
  split at h
  · cases h
  · simp only [List.map_cons,List.find?_cons,hdir,Option.getD_some,Bool.true_and] at h
    split at h
    · exact (Option.some.inj h).symm
    · cases h

variable {order : List String}

theorem setProfileInner_some (h : setProfileInner isDir realDirectory profile order = some target) :
    realDirectory = false ∧ profile ≠ "" ∧ profile ≠ "unknown" ∧
      ∃ base ∈ gentooLocation::order, profileDir base profile = target := by
  unfold setProfileInner at h
  split at h
  · cases h
  · next hname =>
    rw [not_or] at hname
    dsimp only at h
    split at h
    · next hdir =>
      rw [Bool.and_eq_true,Bool.not_eq_true'] at hdir
      refine ⟨hdir.2,hname.1,hname.2,?_⟩
      rw [← Option.some.inj h]
      cases hfind : (order.map (profileDir · profile)).find? isDir with
      | none => exact ⟨gentooLocation,by simp,rfl⟩
      | some found =>
        obtain ⟨base,hbase,hdir⟩ := List.mem_map.mp (List.mem_of_find?_eq_some hfind)
        exact ⟨base,by simp [hbase],hdir⟩
    · cases h

theorem setProfileInner_eq
    (htarget : isDir target) (hreal : realDirectory = false) (hne : profile ≠ "")
    (hknown : profile ≠ "unknown")
    (hbase : ∃ base ∈ gentooLocation::order, profileDir base profile = target)
    (honly : ∀ loc ∈ order, isDir (profileDir loc profile) → profileDir loc profile = target) :
    setProfileInner isDir realDirectory profile order = some target := by
  have hfound : ((order.map (profileDir · profile)).find? isDir).getD
      (profileDir gentooLocation profile) = target := by
    cases hfind : (order.map (profileDir · profile)).find? isDir with
    | some found =>
      obtain ⟨loc,hloc,rfl⟩ := List.mem_map.mp (List.mem_of_find?_eq_some hfind)
      exact honly loc hloc (List.find?_some hfind)
    | none =>
      obtain ⟨base,hmem,hdir⟩ := hbase
      rcases List.mem_cons.mp hmem with rfl | hmem
      · exact hdir
      · have hno := List.find?_eq_none.mp hfind (profileDir base profile)
          (List.mem_map.mpr ⟨base,hmem,rfl⟩)
        rw [hdir] at hno
        exact absurd htarget hno
  rw [setProfileInner,if_neg (by simp [hne,hknown])]
  dsimp only
  rw [hfound,htarget,hreal]
  rfl

theorem setProfileInner_perm_iff (htarget : isDir target) :
    (∀ order : List String, order.Perm locations →
        setProfileInner isDir realDirectory profile order = some target) ↔
      realDirectory = false ∧ profile ≠ "" ∧ profile ≠ "unknown" ∧
        (∃ base ∈ gentooLocation::locations, profileDir base profile = target) ∧
        ∀ loc ∈ locations, isDir (profileDir loc profile) → profileDir loc profile = target := by
  constructor
  · intro h
    obtain ⟨hreal,hne,hknown,hbase⟩ := setProfileInner_some (h locations (List.Perm.refl _))
    refine ⟨hreal,hne,hknown,hbase,fun loc hloc hdir => ?_⟩
    -- some order asks this repository first
    exact (setProfileInner_cons hdir (h _ (List.perm_cons_erase hloc).symm)).symm
  · rintro ⟨hreal,hne,hknown,⟨base,hmem,hbase⟩,honly⟩ order hperm
    refine setProfileInner_eq htarget hreal hne hknown ⟨base,?_,hbase⟩
      fun loc hloc => honly loc (hperm.mem_iff.mp hloc)
    simpa [hperm.mem_iff] using hmem

theorem profileDir_within {base location v : String} :
    profileDir base (v++"profiles/"++profile) = profileDir location profile ↔
      location++"/" = base++"/profiles/"++v := by
  have hleft : (profileDir base (v++"profiles/"++profile)).toList =
      (base++"/profiles/"++v).toList++(profilesMark++profile.toList) := by
    simp only [profileDir,String.toList_append,toList_profiles,List.append_assoc]
  have hright : (profileDir location profile).toList =
      (location++"/").toList++(profilesMark++profile.toList) := by
    simp only [profileDir,String.toList_append,toList_slashProfiles,List.append_assoc]
    rfl
  rw [← String.toList_inj,hleft,hright,List.append_cancel_right_eq,String.toList_inj]
  exact eq_comm

theorem ne_of_slash {front back text : String} (h : '/' ∉ text.toList) :
    front++"profiles/"++back ≠ text := by
  rintro rfl
  simp at h

/-- Whatever order the repositories come in, the worker links to the client's
profile exactly when it is reproducible. -/
theorem profile_reproduced_iff (isDir : String → Bool) (realDirectory : Bool)
    (locations : List String) (location spelled profile : String) (hloc : location ∈ locations)
    (hprofile : isDir (profileDir location profile)) :
    (∀ order : List String, order.Perm locations →
        setProfileInner isDir realDirectory (readProfile (some (profileDir spelled profile)))
          order = some (profileDir location profile)) ↔
      Reproducible isDir realDirectory locations location spelled profile := by
  rw [setProfileInner_perm_iff hprofile,readProfile_link,Reproducible]
  cases afterFirst profilesMark (spelled.toList++['/']) with
  | none =>
    simp only [profileDir_inj]
    simp [hloc]
  | some v =>
    simp only [profileDir_within]
    constructor
    · rintro ⟨hreal,-,-,⟨base,hmem,hbase⟩,honly⟩
      refine ⟨hreal,base,hmem,hbase,fun l hl hdir => ?_⟩
      exact profileDir_inj.mp ((honly l hl hdir).symm.trans hbase)
    · rintro ⟨hreal,base,hmem,hbase,honly⟩
      refine ⟨hreal,ne_of_slash (by decide),ne_of_slash (by decide),
        ⟨base,hmem,hbase⟩,fun l hl hdir => ?_⟩
      rw [honly l hl hdir]
      exact hbase

def sampleDirs : List String :=
  ["/var/db/repos/gentoo/profiles/default/linux","/srv/local/profiles/hardened",
    "/srv/local/profiles/default/linux","/srv/profiles/x/profiles/hardened"]

/-- A profile that only one repository has, linked as eselect does. -/
theorem sample_profile_reproduced :
    readProfile (some "../../srv/local/profiles/hardened") = "hardened" ∧
      setProfileInner sampleDirs.contains false "hardened"
        ["/srv/local","/var/db/repos/gentoo"] = some "/srv/local/profiles/hardened" := by
  have hread : readProfile (some "../../srv/local/profiles/hardened") = "hardened" := by
    decide
  have hafter : afterFirst profilesMark ("../../srv/local".toList++['/']) = none := by
    decide
  have h := (profile_reproduced_iff sampleDirs.contains false
    ["/var/db/repos/gentoo","/srv/local"] "/srv/local" "../../srv/local" "hardened" (by decide)
    (by decide)).mpr (by
      rw [Reproducible,hafter]
      decide) ["/srv/local","/var/db/repos/gentoo"] (List.Perm.swap _ _ _)
  have hlink : profileDir "../../srv/local" "hardened" = "../../srv/local/profiles/hardened" := by
    decide
  rw [hlink,hread] at h
  exact ⟨hread,h⟩

/-- An overlay with a profile of the same name takes its place, and a location
with "profiles/" in it is cut in the wrong place. -/
theorem other_profile_linked :
    setProfileInner sampleDirs.contains false
        (readProfile (some "/var/db/repos/gentoo/profiles/default/linux"))
        ["/srv/local","/var/db/repos/gentoo"] = some "/srv/local/profiles/default/linux" ∧
      setProfileInner sampleDirs.contains false
        (readProfile (some "/srv/profiles/x/profiles/hardened"))
        ["/srv/profiles/x","/var/db/repos/gentoo"] = none := by
  decide

end Remerge.ProfileLink
