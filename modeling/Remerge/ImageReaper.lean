import Remerge.AtomValidation
import Remerge.ImageTags

/-!
# The image reaper

A pass of the reaper goes through the last uses of the images in whatever order
the map gives them. It keeps the newest image of every group, the group of a tag
being what precedes its compiler version, and selects the others that have been
idle for longer than the timeout.
-/

set_option autoImplicit false

namespace Remerge.ImageReaper
open RustText SnapshotTypes ImageTags AtomValidation

/-- The text in front of the last occurrence, as `rfind` finds it. -/
def beforeLast (part : List Char) : List Char → Option (List Char)
  | [] => none
  | c::cs =>
    match beforeLast part cs with
    | some front => some (c::front)
    | none => if part.isPrefixOf (c::cs) then some [] else none

def gccSeparator : List Char := '-'::gccMark

def afterColon (tag : List Char) : List Char := ((splitOnce ':' tag).map Prod.snd).getD tag

def imageTupleKey (tag : String) : String :=
  String.ofList ((beforeLast gccSeparator (afterColon tag.toList)).getD (afterColon tag.toList))

abbrev Newest : Type := Table String (String × Time)

def keepNewest (newest : Newest) (image : String × Time) : Newest :=
  match newest.lookup (imageTupleKey image.1) with
  | some existing =>
    if existing.2 < image.2 then newest.insert (imageTupleKey image.1) image else newest
  | none => newest.insert (imageTupleKey image.1) image

def newestPerTuple (images : List (String × Time)) : Newest := images.foldl keepNewest ∅

def protectedTags (newest : Newest) : List String := newest.entries.map fun e => e.2.1

def isProtected (images : List (String × Time)) (tag : String) : Bool :=
  (protectedTags (newestPerTuple images)).contains tag

def expiredImages (images : List (String × Time)) (now : Time) (timeout : ℕ) : List String :=
  (images.filter fun image =>
    decide ((timeout : ℤ) < now-image.2) && !isProtected images image.1).map Prod.fst

section

/-- The image is one of its group, and none of them was used later. -/
structure NewestOf (images : List (String × Time)) (key : String) (image : String × Time) :
    Prop where
  mem : image ∈ images
  group : imageTupleKey image.1 = key
  latest : ∀ other ∈ images, imageTupleKey other.1 = key → other.2 ≤ image.2

structure Grouped (images : List (String × Time)) (table : Newest) : Prop where
  newest : ∀ key image, table.lookup key = some image → NewestOf images key image
  found : ∀ image ∈ images, (table.lookup (imageTupleKey image.1)).isSome

variable {images : List (String × Time)} {newest : Newest} {key : String} {image : String × Time}
  {tag : String}

theorem NewestOf.append {best : String × Time} (h : NewestOf images key best)
    (hle : imageTupleKey image.1 = key → image.2 ≤ best.2) :
    NewestOf (images++[image]) key best := by
  refine ⟨List.mem_append_left _ h.mem,h.group,fun other ho hk => ?_⟩
  rcases List.mem_append.mp ho with ho | ho
  · exact h.latest other ho hk
  · cases List.mem_singleton.mp ho
    exact hle hk

theorem Grouped.insert (h : Grouped images newest) (image : String × Time)
    (hbest : ∀ other ∈ images, imageTupleKey other.1 = imageTupleKey image.1 → other.2 ≤ image.2) :
    Grouped (images++[image]) (newest.insert (imageTupleKey image.1) image) := by
  constructor
  · intro key best hl
    rw [AList.lookup_insert_ite] at hl
    split at hl
    · next hk =>
      cases hl
      refine ⟨List.mem_append_right _ List.mem_cons_self,hk.symm,fun other ho hko => ?_⟩
      rcases List.mem_append.mp ho with ho | ho
      · exact hbest other ho (hko.trans hk)
      · rw [List.mem_singleton.mp ho]
    · next hk => exact (h.newest key best hl).append fun hi => (hk hi.symm).elim
  · intro other ho
    rw [AList.lookup_insert_ite]
    split
    · rfl
    · next hk =>
      rcases List.mem_append.mp ho with ho | ho
      · exact h.found other ho
      · rw [List.mem_singleton.mp ho] at hk
        exact (hk rfl).elim

theorem Grouped.keepNewest (h : Grouped images newest) (image : String × Time) :
    Grouped (images++[image]) (keepNewest newest image) := by
  unfold ImageReaper.keepNewest
  split
  · next existing hl =>
    have hex := h.newest _ existing hl
    split
    · next hlt =>
      exact h.insert image fun other ho hk => (hex.latest other ho hk).trans (Int.le_of_lt hlt)
    · next hge =>
      refine ⟨fun key best hb => ?_,fun other ho => ?_⟩
      · refine (h.newest key best hb).append fun hk => ?_
        rw [← hk,hl] at hb
        cases hb
        exact Int.not_lt.mp hge
      · rcases List.mem_append.mp ho with ho | ho
        · exact h.found other ho
        · rw [List.mem_singleton.mp ho,hl]
          rfl
  · next hl =>
    refine h.insert image fun other ho hk => ?_
    have hsome := h.found other ho
    rw [hk,hl] at hsome
    cases hsome

theorem grouped_newestPerTuple (images : List (String × Time)) :
    Grouped images (newestPerTuple images) := by
  have hfold : ∀ rest front (newest : Newest), Grouped front newest →
      Grouped (front++rest) (rest.foldl ImageReaper.keepNewest newest) := by
    intro rest
    induction rest with
    | nil => exact fun front newest h => by simpa using h
    | cons image rest ih =>
      intro front newest h
      simpa using ih _ _ (h.keepNewest image)
  refine hfold images [] ∅ ⟨fun key image hl => ?_,fun _ h => (List.not_mem_nil h).elim⟩
  rw [AList.lookup_empty] at hl
  cases hl

theorem isProtected_iff : isProtected images tag ↔
    ∃ time, (newestPerTuple images).lookup (imageTupleKey tag) = some (tag,time) := by
  rw [isProtected,List.contains_iff_mem,protectedTags,List.mem_map]
  constructor
  · rintro ⟨⟨key,best⟩,hm,rfl⟩
    have hl := AList.mem_lookup_iff.mpr hm
    rw [((grouped_newestPerTuple images).newest key best hl).group]
    exact ⟨best.2,hl⟩
  · rintro ⟨time,hl⟩
    exact ⟨_,AList.mem_lookup_iff.mp hl,rfl⟩

theorem protected_of_group (h : image ∈ images) :
    ∃ best, NewestOf images (imageTupleKey image.1) best ∧
      ∀ tag, isProtected images tag ∧ imageTupleKey tag = imageTupleKey image.1 ↔ tag = best.1 := by
  have hg := grouped_newestPerTuple images
  obtain ⟨best,hl⟩ := Option.isSome_iff_exists.mp (hg.found image h)
  have hbest := hg.newest _ best hl
  refine ⟨best,hbest,fun tag => ⟨?_,?_⟩⟩
  · rintro ⟨hp,hk⟩
    obtain ⟨time,ht⟩ := isProtected_iff.mp hp
    rw [hk,hl] at ht
    cases ht
    rfl
  · rintro rfl
    exact ⟨isProtected_iff.mpr ⟨best.2,by rw [hbest.group,hl]⟩,hbest.group⟩

theorem mem_expiredImages {now : Time} {timeout : ℕ} :
    tag ∈ expiredImages images now timeout ↔
      ∃ time, (tag,time) ∈ images ∧ (timeout : ℤ) < now-time ∧ isProtected images tag = false := by
  simp [expiredImages,List.mem_map,List.mem_filter,and_assoc]

end

variable {front back : List Char}

theorem beforeLast_append {part cut : List Char} (h : beforeLast part back = some cut) :
    beforeLast part (front++back) = some (front++cut) := by
  induction front with
  | nil => exact h
  | cons c front ih => rw [List.cons_append,beforeLast,ih,List.cons_append]

theorem beforeLast_free (hf : '-' ∉ front) (hb : beforeLast gccSeparator back = none) :
    beforeLast gccSeparator (front++back) = none := by
  induction front with
  | nil => exact hb
  | cons c front ih =>
    rw [List.mem_cons,not_or] at hf
    rw [List.cons_append,beforeLast,ih hf.2]
    simp [gccSeparator,List.isPrefixOf,hf.1]

theorem hyphen_not_mem_gccShort {sys : SystemIdentity} (h : '-' ∉ sys.gccVersion.toList) :
    '-' ∉ gccShort sys := by
  intro hc
  obtain ⟨c,hc,hr⟩ := List.mem_map.mp hc
  have hhyphen : c = '-' := by
    split at hr
    · cases hr
    · exact hr
  subst hhyphen
  cases hw : (splitWhitespace sys.gccVersion).getLast? with
  | none =>
    rw [hw] at hc
    revert hc
    decide
  | some word =>
    rw [hw,Option.getD_some] at hc
    obtain ⟨cs,hcs,rfl⟩ := List.mem_map.mp (List.mem_of_getLast? hw)
    rw [String.toList_ofList] at hc
    exact h (of_mem_splitOnP _ (List.mem_filter.mp hcs).1 hc).1

/-- Where the first colon stands is decided in the part of all tags of a server. -/
theorem afterColon_common (start : List Char) :
    ∃ front, ∀ rest, afterColon (start++ ':'::rest) = front++rest := by
  by_cases h : ':' ∈ start
  · obtain ⟨before,after,rfl,hb⟩ := List.eq_append_cons_of_mem h
    refine ⟨after++[':'],fun rest => ?_⟩
    rw [List.append_assoc,List.cons_append,afterColon,splitOnce_append _ hb]
    simp
  · exact ⟨[],fun rest => by rw [afterColon,splitOnce_append _ h]; rfl⟩

theorem imageTupleKey_imageTag (d : DockerManager) (sys : SystemIdentity)
    (hv : beforeLast gccSeparator d.packageVersion.toList = none) (hg : '-' ∉ sys.gccVersion.toList)
    (hfront : ∀ rest, afterColon (d.imagePrefix.toList++ ':'::rest) = front++rest) :
    imageTupleKey (imageTag d sys) =
      String.ofList (front++(chostSlug sys++ '-'::profileSlug sys)) := by
  have hversion : beforeLast gccSeparator ('-':: 'v'::d.packageVersion.toList) = none := by
    have h : beforeLast gccSeparator (['v']++d.packageVersion.toList) = none :=
      beforeLast_free (by decide) hv
    rw [List.singleton_append] at h
    rw [beforeLast,h]
    rfl
  have htail : beforeLast gccSeparator
      (gccSeparator++(gccShort sys++ '-':: 'v'::d.packageVersion.toList)) = some [] := by
    have hrest : beforeLast gccSeparator
        (gccMark++(gccShort sys++ '-':: 'v'::d.packageVersion.toList)) = none :=
      beforeLast_free (by decide) (beforeLast_free (hyphen_not_mem_gccShort hg) hversion)
    rw [gccSeparator,List.cons_append,beforeLast,← gccSeparator,hrest]
    simp [gccSeparator,List.isPrefixOf,gccMark]
  have htag : afterColon (imageTag d sys).toList = (front++(chostSlug sys++ '-'::profileSlug sys))++
      (gccSeparator++(gccShort sys++ '-':: 'v'::d.packageVersion.toList)) := by
    have h := hfront ((imageTagSuffix d sys).toList)
    simpa [imageTag,imageTagSuffix,slugs,gccSeparator,String.toList_append] using h
  rw [imageTupleKey,htag,beforeLast_append htail,Option.getD_some,List.append_nil]

theorem reaper_keeps_newest (images : List (String × Time)) (now : Time) (timeout : ℕ) :
    (∀ tag, tag ∈ expiredImages images now timeout ↔ ∃ time, (tag,time) ∈ images ∧
        (timeout : ℤ) < now-time ∧ isProtected images tag = false) ∧
      (∀ image ∈ images, ∃ best, NewestOf images (imageTupleKey image.1) best ∧
        ∀ tag, isProtected images tag ∧ imageTupleKey tag = imageTupleKey image.1 ↔
          tag = best.1) ∧
      ∀ (d : DockerManager) (s t : SystemIdentity),
        beforeLast gccSeparator d.packageVersion.toList = none → s.chost = t.chost →
        s.profile = t.profile → '-' ∉ s.gccVersion.toList → '-' ∉ t.gccVersion.toList →
        imageTupleKey (imageTag d s) = imageTupleKey (imageTag d t) := by
  refine ⟨fun tag => mem_expiredImages,fun image h => protected_of_group h,?_⟩
  intro d s t hv hc hp hs ht
  obtain ⟨front,hfront⟩ := afterColon_common d.imagePrefix.toList
  have hchost : chostSlug s = chostSlug t := by rw [chostSlug,chostSlug,hc]
  have hprofile : profileSlug s = profileSlug t := by rw [profileSlug,profileSlug,hp]
  rw [imageTupleKey_imageTag d s hv hs hfront,imageTupleKey_imageTag d t hv ht hfront,hchost,
    hprofile]

theorem compilers_share_a_group :
    imageTupleKey (imageTag sampleManager desktop) =
      imageTupleKey (imageTag sampleManager { desktop with gccVersion := "gcc 13.4" }) :=
  (reaper_keeps_newest [] 0 0).2.2 sampleManager desktop _ (by decide) rfl rfl (by decide)
    (by decide)

end Remerge.ImageReaper
