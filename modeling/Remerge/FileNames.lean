import Remerge.PathWalk
import Remerge.StagingPaths

/-!
# File names and the paths made of them

Directory entries have non-empty names without separators. A path's text is split
into such names, and the names of a location are joined into its key.
-/

set_option autoImplicit false

namespace Remerge.FileNames
open SnapshotTypes StagingPaths PathWalk

def isFileName (name : String) : Bool :=
  !name.toList.contains '/' && name != "" && name != "." && name != ".."

structure FileName where
  text : String
  valid : isFileName text
  deriving DecidableEq

def toName (text : String) : Option FileName :=
  if h : isFileName text = true then some ⟨text,h⟩ else none

abbrev FileTree : Type := Hierarchy FileName Bytes Bytes

def bareTree : FileTree where
  nodes := (∅ : Table (Location FileName) (Node Bytes Bytes)).insert [] .dir
  rooted := by decide
  closed := by
    intro name dir h
    rw [AList.lookup_insert_ite,if_neg (by simp)] at h
    cases h

def hopOf (part : List Char) : Option (Hop FileName) :=
  if part = [] ∨ part = ['.'] then some .stay
  else if part = ['.','.'] then some .up
  else (toName (String.ofList part)).map .down

def hopsOf (text : String) : List (Hop FileName) :=
  (text.toList.splitOn '/').filterMap hopOf

theorem FileName.text_ne (name : FileName) :
    '/' ∉ name.text.toList ∧ name.text.toList ≠ [] ∧ name.text.toList ≠ ['.'] ∧
      name.text.toList ≠ ['.','.'] := by
  have hv := name.valid
  simp only [isFileName,Bool.and_eq_true,Bool.not_eq_true',bne_iff_ne] at hv
  have hne : ∀ cs : List Char, name.text ≠ String.ofList cs → name.text.toList ≠ cs := by
    intro cs hc he
    exact hc (by rw [← he,String.ofList_toList])
  exact ⟨by simpa using hv.1.1.1,hne [] hv.1.1.2,hne ['.'] hv.1.2,hne ['.','.'] hv.2⟩

theorem toName_text (name : FileName) : toName name.text = some name := by
  rw [toName,dif_pos name.valid]

/-- A link target is a byte string. One that is not UTF-8 leads nowhere in a tree
whose names are. -/
def linkHops : Expand FileName Bytes := fun target =>
  (String.fromUTF8? ⟨target.toArray⟩).map fun text => (isAbsolute text,hopsOf text)

def sanitizeBinpkgPath (path : String) : Except Failure (List FileName) :=
  if isAbsolute path then .error (.bail "absolute paths are not allowed")
  else match pushNormal (components path) with
    | none => .error (.bail "path traversal is not allowed")
    | some [] => .error (.bail "empty paths are not allowed")
    | some segments => .ok (segments.filterMap toName)

section

def keyOf : List FileName → String
  | [] => ""
  | [name] => name.text
  | name::dir => keyOf dir ++ "/" ++ name.text

theorem intercalate_concat {α : Type} (x : α) (l : List α) {ls : List (List α)} (h : ls ≠ []) :
    [x].intercalate (ls++[l]) = [x].intercalate ls++x::l := by
  induction ls with
  | nil => exact absurd rfl h
  | cons first rest ih =>
    by_cases hr : rest = []
    · subst hr
      simp
    · have hmore : rest++[l] ≠ [] := by simp
      rw [List.cons_append,List.intercalate_cons_of_ne_nil hmore,ih hr,
        List.intercalate_cons_of_ne_nil hr]
      simp

theorem toList_keyOf (path : List FileName) :
    (keyOf path).toList = ['/'].intercalate (path.reverse.map fun name => name.text.toList) := by
  induction path with
  | nil => rfl
  | cons name dir ih =>
    cases dir with
    | nil => simp [keyOf]
    | cons parent dir =>
      have hne : ((parent::dir).reverse.map fun name => name.text.toList) ≠ [] := by simp
      have hrev : (name::parent::dir).reverse = (parent::dir).reverse++[name] := List.reverse_cons
      rw [keyOf,String.toList_append,String.toList_append,ih,hrev,List.map_append,
        List.map_singleton,intercalate_concat '/' name.text.toList hne]
      · simp
      · simp

variable {path : List FileName}

theorem splitOn_keyOf (h : path ≠ []) :
    (keyOf path).toList.splitOn '/' = path.reverse.map fun name => name.text.toList := by
  rw [toList_keyOf]
  apply List.splitOn_intercalate
  · intro part hpart
    obtain ⟨name,-,rfl⟩ := List.mem_map.mp hpart
    exact name.text_ne.1
  · simpa using h

theorem FileName.ext_text {a b : FileName} (h : a.text = b.text) : a = b := by
  cases a
  cases b
  cases h
  rfl

theorem keyOf_ne_empty (h : path ≠ []) : (keyOf path).toList ≠ [] := by
  intro he
  have hs := splitOn_keyOf h
  rw [he,List.splitOn_nil] at hs
  have hpart : [] ∈ path.reverse.map fun name => name.text.toList := hs ▸ List.mem_singleton_self []
  obtain ⟨name,-,hname⟩ := List.mem_map.mp hpart
  exact name.text_ne.2.1 hname

theorem keyOf_injective {a b : List FileName} (h : keyOf a = keyOf b) : a = b := by
  by_cases ha : a = []
  · by_cases hb : b = []
    · rw [ha,hb]
    · subst ha
      exact absurd (congrArg String.toList h).symm (keyOf_ne_empty hb)
  · by_cases hb : b = []
    · subst hb
      exact absurd (congrArg String.toList h) (keyOf_ne_empty ha)
    · have hs := splitOn_keyOf ha
      rw [h,splitOn_keyOf hb] at hs
      have hinj : Function.Injective fun name : FileName => name.text.toList := by
        intro x y hxy
        exact FileName.ext_text (String.toList_injective hxy)
      exact (List.reverse_injective (List.map_injective_iff.mpr hinj hs)).symm

theorem mem_splitOn_keyOf (h : path ≠ []) {part : List Char}
    (hp : part ∈ (keyOf path).toList.splitOn '/') : ∃ name ∈ path, name.text.toList = part := by
  rw [splitOn_keyOf h] at hp
  obtain ⟨name,hmem,hname⟩ := List.mem_map.mp hp
  exact ⟨name,List.mem_reverse.mp hmem,hname⟩

theorem isAbsolute_keyOf (h : path ≠ []) : isAbsolute (keyOf path) = false := by
  rw [isAbsolute,beq_eq_false_iff_ne]
  intro hhead
  obtain ⟨rest,hrest⟩ := List.head?_eq_some_iff.mp hhead
  have hpart : [] ∈ (keyOf path).toList.splitOn '/' := by
    have hsplit : List.splitOn '/' ([] ++ '/'::rest) = List.splitOn '/' []++List.splitOn '/' rest :=
      List.splitOn_append_cons_self [] rest
    rw [hrest]
    rw [List.nil_append] at hsplit
    rw [hsplit]
    simp
  obtain ⟨name,-,hname⟩ := mem_splitOn_keyOf h hpart
  exact name.text_ne.2.1 hname

theorem components_keyOf (h : path ≠ []) :
    components (keyOf path) = path.reverse.map fun name => .normal name.text := by
  have hbody : (path.reverse.map fun name => name.text.toList).filterMap bodyComponent =
      path.reverse.map fun name => .normal name.text := by
    rw [List.filterMap_map]
    apply List.filterMap_eq_map_iff_forall_eq_some.mpr
    intro name _
    obtain ⟨-,hnil,hdot,hup⟩ := name.text_ne
    simp [bodyComponent,hnil,hdot,hup]
  unfold components
  rw [isAbsolute_keyOf h,splitOn_keyOf h]
  split
  · next he => cases he
  · next parts he =>
    have hdot : ['.'] ∈ path.reverse.map fun name => name.text.toList := by
      rw [he]
      exact List.mem_cons_self
    obtain ⟨name,-,hname⟩ := List.mem_map.mp hdot
    exact absurd hname name.text_ne.2.2.1
  · next he _ => exact hbody

theorem pushNormal_normals (texts : List String) : pushNormal (texts.map .normal) = some texts := by
  induction texts with
  | nil => rfl
  | cons text rest ih => simp [pushNormal,ih]

theorem filterMap_toName (names : List FileName) :
    (names.map FileName.text).filterMap toName = names := by
  have hsome : toName ∘ FileName.text = some := funext toName_text
  rw [List.filterMap_map,hsome,List.filterMap_some]

theorem sanitizeBinpkgPath_keyOf (h : path ≠ []) :
    sanitizeBinpkgPath (keyOf path) = .ok path.reverse := by
  have hpush : pushNormal (components (keyOf path)) = some (path.reverse.map FileName.text) := by
    rw [components_keyOf h,← pushNormal_normals,List.map_map]
    rfl
  have hne : path.reverse.map FileName.text ≠ [] := by simpa using h
  have hnames := filterMap_toName path.reverse
  unfold sanitizeBinpkgPath
  cases hc : path.reverse.map FileName.text with
  | nil => exact absurd hc hne
  | cons first rest =>
    rw [hc] at hpush hnames
    rw [isAbsolute_keyOf h,hpush]
    exact congrArg Except.ok hnames

end

end Remerge.FileNames
