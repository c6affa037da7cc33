import Remerge.FileNames
import Remerge.RustText

/-!
# One notion of a safe relative path

The server, the client and the worker each have their own check of a client's
relative path. Their orders of questions differ, but all three ask whether the
components are normal ones and whether there are any. What is accepted stays
below the root it is joined to.
-/

set_option autoImplicit false

namespace Remerge.SafePaths
open StagingPaths FileNames RustText

def isNormal : Component → Bool
  | .normal _ => true
  | _ => false

/-- The check in front of the worker's overlay, patch and repository writers. -/
def hasUnsafeComponent (path : String) : Bool := (components path).any fun c => !isNormal c

def writesOverlay (path : String) : Bool := !(hasUnsafeComponent path || path == "")

/-- `Path::join`. -/
def joinPath (root path : String) : String :=
  if isAbsolute path then path
  else if root = "" ∨ root.toList.getLast? = some '/' then root++path
  else root++"/"++path

def pathParts (path : String) : List (List Char) := path.toList.splitOn '/'

def leading (path : String) : List Component :=
  if isAbsolute path then [.rootDir]
  else if (pathParts path).head? = some ['.'] then [.curDir]
  else []

/-- Only the start of a path is read in a way of its own. -/
theorem components_eq (path : String) :
    components path = leading path++(pathParts path).filterMap bodyComponent := by
  unfold components leading pathParts
  cases isAbsolute path with
  | true => rfl
  | false =>
    match path.toList.splitOn '/' with
    | [] => rfl
    | part::rest =>
      by_cases hdot : part = ['.']
      · subst hdot
        rfl
      · simp [hdot]

theorem pathParts_slash (front back : String) :
    pathParts (front++"/"++back) = pathParts front++pathParts back := by
  simp only [pathParts,String.toList_append]
  rw [List.append_assoc]
  exact List.splitOn_append_cons_self _ _

theorem leading_slash {front : String} (h : front ≠ "") (back : String) :
    leading (front++"/"++back) = leading front := by
  have hne : front.toList ≠ [] := by simpa using h
  have hparts : pathParts front ≠ [] := List.splitOnP_ne_nil _ _
  unfold leading isAbsolute
  rw [pathParts_slash,List.head?_append_of_ne_nil _ hparts,
    String.toList_append,String.toList_append,List.append_assoc,List.head?_append_of_ne_nil _ hne]

theorem components_slash {front : String} (h : front ≠ "") (back : String) :
    components (front++"/"++back) = components front++(pathParts back).filterMap bodyComponent := by
  rw [components_eq,components_eq front,leading_slash h,pathParts_slash,List.filterMap_append,
    List.append_assoc]

theorem components_root (back : String) :
    components ("/"++back) = .rootDir::(pathParts back).filterMap bodyComponent := by
  have habs : isAbsolute ("/"++back) := by simp [isAbsolute,String.toList_append]
  have hparts : pathParts ("/"++back) = [[]]++pathParts back := pathParts_slash "" back
  rw [components_eq,leading,if_pos habs,hparts,List.filterMap_append]
  rfl

/-- A separator at the end of a path adds nothing. -/
theorem components_append {root : String} (hlast : root.toList.getLast? = some '/')
    (back : String) :
    components (root++back) = components root++(pathParts back).filterMap bodyComponent := by
  obtain ⟨front,hfront⟩ := List.getLast?_eq_some_iff.mp hlast
  have hroot : root = String.ofList front++"/" := String.toList_injective (by simp [hfront])
  have hend : ∀ s : String, s++"/" = s++"/"++"" := fun s => String.append_empty.symm
  by_cases hempty : String.ofList front = ""
  · rw [hroot,hempty,String.empty_append,components_root]
    rfl
  · rw [hroot,components_slash hempty,hend (String.ofList front),components_slash hempty,
      List.append_assoc]
    rfl

section
variable {path : String} {segments : List String}

theorem pushNormal_eq_some {cs : List Component} :
    pushNormal cs = some segments ↔ cs = segments.map .normal := by
  constructor
  · intro h
    induction cs generalizing segments with
    | nil =>
      cases h
      rfl
    | cons c rest ih =>
      cases c with
      | normal segment =>
        obtain ⟨more,hmore,hs⟩ := Option.map_eq_some_iff.mp h
        rw [← hs,ih hmore]
        rfl
      | rootDir | curDir | parentDir => cases h
  · rintro rfl
    exact pushNormal_normals segments

theorem components_ne_nil (h : path ≠ "") : components path ≠ [] := by
  cases habs : isAbsolute path with
  | true => simp [components_eq,leading,habs]
  | false =>
    obtain ⟨c,cs,hcs⟩ := List.exists_cons_of_ne_nil (show path.toList ≠ [] by simpa using h)
    have hc : c ≠ '/' := by simpa [isAbsolute,hcs] using habs
    obtain ⟨part,rest,hparts⟩ := List.exists_cons_of_ne_nil (List.splitOnP_ne_nil (· == '/') cs)
    have hfirst : pathParts path = (c::part)::rest := by
      rw [pathParts,hcs,List.splitOn,List.splitOnP_cons_eq_if_modifyHead,if_neg (by simpa using hc),
        hparts]
      rfl
    by_cases hdot : c::part = ['.']
    · simp [components_eq,leading,habs,hfirst,hdot]
    · by_cases hup : c::part = ['.','.'] <;>
        simp [components_eq,hfirst,bodyComponent,hdot,hup]

def Accepted (path : String) (segments : List String) : Prop :=
  path ≠ "" ∧ components path = segments.map .normal

theorem Accepted.relative (h : Accepted path segments) : isAbsolute path = false := by
  cases habs : isAbsolute path with
  | false => rfl
  | true =>
    have hc := h.2
    rw [components_eq,leading,if_pos habs] at hc
    cases segments <;> cases hc

theorem Accepted.leading_eq (h : Accepted path segments) : leading path = [] := by
  have hc := h.2
  rw [components_eq] at hc
  unfold leading at hc ⊢
  rw [h.relative] at hc ⊢
  by_cases hdot : (pathParts path).head? = some ['.']
  · rw [if_neg (by simp),if_pos hdot] at hc
    cases segments <;> cases hc
  · simp [hdot]

theorem sanitizeRelativePath_iff :
    sanitizeRelativePath path = .ok segments ↔ Accepted path segments := by
  unfold sanitizeRelativePath
  constructor
  · intro h
    split at h
    · cases h
    · next hp =>
      split at h
      · next safe hs =>
        cases h
        exact ⟨fun he => hp (.inl he),pushNormal_eq_some.mp hs⟩
      · cases h
  · intro h
    rw [if_neg (by simp [h.1,h.relative]),pushNormal_eq_some.mpr h.2]

theorem segment_isFileName {segment : String} (h : .normal segment ∈ components path) :
    isFileName segment := by
  have hbody : .normal segment ∈ (pathParts path).filterMap bodyComponent := by
    rw [components_eq,List.mem_append] at h
    refine h.resolve_left fun hl => ?_
    unfold leading at hl
    split at hl
    · simp at hl
    · split at hl <;> simp at hl
  obtain ⟨part,hpart,hb⟩ := List.mem_filterMap.mp hbody
  have hslash : '/' ∉ part := fun hc => by simpa using not_of_mem_splitOnP path.toList hpart hc
  unfold bodyComponent at hb
  split at hb
  · cases hb
  · split at hb
    · cases hb
    · next hnone hup =>
      cases hb
      rw [not_or] at hnone
      have hne : ∀ cs : List Char, part ≠ cs → String.ofList part ≠ String.ofList cs :=
        fun cs hcs he => hcs (String.ofList_injective he)
      have hdot : String.ofList part ≠ "." := hne ['.'] hnone.2
      have hdots : String.ofList part ≠ ".." := hne ['.','.'] hup
      simp [isFileName,hslash,hnone.1,hdot,hdots]

theorem map_filterMap_toName (h : ∀ segment ∈ segments, isFileName segment) :
    (segments.filterMap toName).map FileName.text = segments := by
  induction segments with
  | nil => rfl
  | cons segment rest ih =>
    rw [List.forall_mem_cons] at h
    rw [List.filterMap_cons_some (show toName segment = some ⟨segment,h.1⟩ from dif_pos h.1),
      List.map_cons,ih h.2]

theorem sanitizeBinpkgPath_iff {names : List FileName} :
    sanitizeBinpkgPath path = .ok names ↔ Accepted path (names.map FileName.text) := by
  unfold sanitizeBinpkgPath
  constructor
  · intro h
    split at h
    · cases h
    · split at h
      · cases h
      · cases h
      · next segments hne hs =>
        have hc := pushNormal_eq_some.mp hs
        cases h
        refine ⟨?_,?_⟩
        · rintro rfl
          exact hne (Option.some.inj hs.symm)
        · rw [map_filterMap_toName fun segment hm => segment_isFileName
            (hc ▸ List.mem_map_of_mem hm),hc]
  · intro h
    have hne : names.map FileName.text ≠ [] := by
      intro hn
      exact components_ne_nil h.1 (h.2.trans (congrArg (List.map Component.normal) hn))
    have hnames := filterMap_toName names
    rw [h.relative,pushNormal_eq_some.mpr h.2]
    cases hc : names.map FileName.text with
    | nil => exact absurd hc hne
    | cons first rest =>
      rw [hc] at hnames
      exact congrArg Except.ok hnames

theorem writesOverlay_iff : writesOverlay path ↔ ∃ segments, Accepted path segments := by
  have hall : hasUnsafeComponent path = false ↔
      ∃ segments : List String, components path = segments.map .normal := by
    rw [hasUnsafeComponent]
    generalize components path = cs
    constructor
    · intro h
      induction cs with
      | nil => exact ⟨[],rfl⟩
      | cons c rest ih =>
        rw [List.any_cons,Bool.or_eq_false_iff] at h
        obtain ⟨segments,hs⟩ := ih h.2
        cases c with
        | normal segment => exact ⟨segment::segments,by rw [hs,List.map_cons]⟩
        | rootDir | curDir | parentDir => exact absurd h.1 (by decide)
    · rintro ⟨segments,rfl⟩
      simp [isNormal]
  simp [writesOverlay,Accepted,hall,and_comm]

theorem components_joinPath (h : Accepted path segments) (root : String) :
    components (joinPath root path) = components root++segments.map .normal := by
  have hparts : (pathParts path).filterMap bodyComponent = segments.map .normal := by
    rw [← h.2,components_eq,h.leading_eq,List.nil_append]
  unfold joinPath
  rw [h.relative,if_neg (by simp),← hparts]
  split
  · next hend =>
    rcases hend with rfl | hlast
    · rw [String.empty_append,h.2,hparts]
      rfl
    · exact components_append hlast path
  · next hend =>
    rw [not_or] at hend
    exact components_slash hend.1 path

end

theorem one_safe_path (path : String) :
    (∀ segments, sanitizeRelativePath path = .ok segments ↔
        ∃ names, sanitizeBinpkgPath path = .ok names ∧ names.map FileName.text = segments) ∧
      (writesOverlay path ↔ ∃ segments, sanitizeRelativePath path = .ok segments) ∧
      ∀ segments root, sanitizeRelativePath path = .ok segments →
        components (joinPath root path) = components root++segments.map .normal := by
  refine ⟨fun segments => ⟨fun h => ?_,?_⟩,?_,fun segments root h => ?_⟩
  · have ha := sanitizeRelativePath_iff.mp h
    have hnames := map_filterMap_toName fun segment hm =>
      segment_isFileName (ha.2 ▸ List.mem_map_of_mem hm)
    exact ⟨_,sanitizeBinpkgPath_iff.mpr (hnames.symm ▸ ha),hnames⟩
  · rintro ⟨names,hn,rfl⟩
    exact sanitizeRelativePath_iff.mpr (sanitizeBinpkgPath_iff.mp hn)
  · rw [writesOverlay_iff]
    exact exists_congr fun segments => sanitizeRelativePath_iff.symm
  · exact components_joinPath (sanitizeRelativePath_iff.mp h) root

theorem slashed_path_below_root :
    components (joinPath "/etc/portage/" "a//b/") =
      [.rootDir,.normal "etc",.normal "portage",.normal "a",.normal "b"] :=
  (one_safe_path "a//b/").2.2 ["a","b"] "/etc/portage/" (by decide)

end Remerge.SafePaths
