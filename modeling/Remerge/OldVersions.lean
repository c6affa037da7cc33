import Mathlib.Data.Char
import Mathlib.Data.List.Lex
import Remerge.PackageMatching
import Remerge.PmsVersions
import Remerge.SortedPrefix

/-!
# Cleaning up old package versions

Once an hour the server groups the packages of its repository by category and name
and removes all but the last files of each group, in the order of their file names.
That order is not the order of versions, and a category without a hyphen is not
scanned at all.
-/

set_option autoImplicit false

namespace Remerge.OldVersions
open RustText SnapshotTypes FileNames PackageNames BinpkgRepo PackageMatching PmsVersions
open SortedPrefix

abbrev Category := {c : List Char // isCategory c = true}

abbrev PackageName := {n : List Char // isPackageName n = true}

inductive Format where
  | gpkg
  | tbz2
  deriving DecidableEq, Repr

def Format.suffix : Format → List Char
  | .gpkg => gpkgSuffix
  | .tbz2 => tbz2Suffix

structure Package where
  category : Category
  name : PackageName
  deriving DecidableEq

structure RepoFile where
  package : Package
  version : Version
  format : Format
  content : Bytes
  deriving DecidableEq

def RepoFile.text (f : RepoFile) : List Char :=
  f.package.name.1++ '-'::(f.version.text++f.format.suffix)

theorem isFileName_of {cs : List Char} (hslash : '/' ∉ cs)
    (hdot : cs.all (· == '.') = false) : isFileName (String.ofList cs) := by
  have hne {t : List Char} (ht : t.all (· == '.')) : String.ofList cs ≠ String.ofList t := by
    intro h
    rw [String.ofList_inj.mp h,ht] at hdot
    cases hdot
  simp only [isFileName,Bool.and_eq_true,bne_iff_ne,Bool.not_eq_true',String.toList_ofList]
  refine ⟨⟨⟨by simpa using hslash,?_⟩,?_⟩,?_⟩
  · exact hne (t := []) rfl
  · exact hne (t := ['.']) rfl
  · exact hne (t := ['.','.']) rfl

theorem isFileName_category (c : Category) : isFileName (String.ofList c.1) := by
  have hc := c.2
  simp only [isCategory,Bool.and_eq_true,decide_eq_true_eq] at hc
  refine isFileName_of (slash_not_mem_category c.2) ?_
  cases h : c.1 with
  | nil => exact absurd h hc.1.1
  | cons d ds =>
    have hd : d ≠ '.' := by
      rintro rfl
      rw [h] at hc
      simp at hc
    simp [hd]

theorem slash_not_mem_version (v : Version) : '/' ∉ v.text := by
  intro h
  have hm := (RegularExpression.rmatch_iff_matches' _ _).mp (isVersion_iff.mpr ⟨v,rfl⟩)
  exact absurd (mem_letters hm h) (by decide)

theorem isFileName_text (f : RepoFile) : isFileName (String.ofList f.text) := by
  refine isFileName_of ?_ ?_
  · simp only [RepoFile.text,List.mem_append,List.mem_cons,not_or]
    exact ⟨slash_not_mem_name f.package.name.2,by decide,slash_not_mem_version f.version,
      by cases f.format <;> decide⟩
  · rw [RepoFile.text,List.all_append,List.all_cons]
    simp

def categoryName (c : Category) : FileName := ⟨String.ofList c.1,isFileName_category c⟩

def RepoFile.fileName (f : RepoFile) : FileName := ⟨String.ofList f.text,isFileName_text f⟩

structure Repository where
  files : List RepoFile
  distinct : (files.map fun f => (f.package.category,f.text)).Nodup

def Repository.ofPackage (r : Repository) (p : Package) : List RepoFile :=
  r.files.filter (·.package = p)

def Repository.inCategory (r : Repository) (c : Category) : List RepoFile :=
  r.files.filter (·.package.category = c)

def Repository.categories (r : Repository) : List Category :=
  (r.files.map (·.package.category)).dedup

theorem categoryName_inj {c d : Category} (h : categoryName c = categoryName d) : c = d := by
  rw [categoryName,categoryName,FileName.mk.injEq,String.ofList_inj] at h
  exact Subtype.ext h

theorem fileName_inj {f g : RepoFile} : f.fileName = g.fileName ↔ f.text = g.text := by
  rw [RepoFile.fileName,RepoFile.fileName,FileName.mk.injEq,String.ofList_inj]

theorem nodup_inCategory (r : Repository) (c : Category) :
    ((r.inCategory c).map RepoFile.text).Nodup := by
  have h := (List.filter_sublist (p := fun f => decide (f.package.category = c))).map
    (fun f : RepoFile => (f.package.category,f.text)) |>.nodup r.distinct
  rw [List.Nodup,List.pairwise_map] at h ⊢
  refine h.imp_of_mem fun {f g} hf hg hne he => hne ?_
  rw [Repository.inCategory,List.mem_filter,decide_eq_true_eq] at hf hg
  rw [hf.2,hg.2,he]

def diskFile (f : RepoFile) : PackageFile := ⟨f.fileName,true,some f.content,none⟩

theorem nodup_diskFiles (r : Repository) (c : Category) :
    ((((r.inCategory c).map diskFile).filter (·.utf8)).map (·.name)).Nodup := by
  have h := nodup_inCategory r c
  rw [List.filter_eq_self.mpr (by simp [diskFile]),List.map_map]
  rw [List.Nodup,List.pairwise_map] at h ⊢
  exact h.imp fun hne he => hne (fileName_inj.mp he)

def categoryDir (r : Repository) (c : Category) : Subdirectory where
  name := categoryName c
  utf8 := true
  listing := ⟨true,true,(r.inCategory c).map diskFile,nodup_diskFiles r c⟩

theorem nodup_categoryDirs (r : Repository) :
    (((r.categories.map (categoryDir r)).filter (·.utf8)).map (·.name)).Nodup := by
  have hall : (r.categories.map (categoryDir r)).filter (·.utf8) =
      r.categories.map (categoryDir r) := by
    rw [List.filter_eq_self]
    intro sub hsub
    obtain ⟨c,-,rfl⟩ := List.mem_map.mp hsub
    rfl
  rw [hall,List.map_map]
  exact (List.nodup_dedup _).map fun c d h => categoryName_inj h

def dirOf (r : Repository) : BinpkgDir where
  top := ⟨true,true,[],List.nodup_nil⟩
  subdirectories := r.categories.map (categoryDir r)
  distinct := nodup_categoryDirs r

section

def byFilename (a b : PackageMeta) : Prop := a.filename.toList ≤ b.filename.toList

instance : DecidableRel byFilename := fun a b =>
  inferInstanceAs (Decidable (a.filename.toList ≤ b.filename.toList))

def versionGroups (entries : List PackageMeta) : List (List PackageMeta) :=
  (entries.map fun e => extractPackageBase e.cpv).dedup.map fun base =>
    entries.filter fun e => extractPackageBase e.cpv = base

def oldVersions (keep : ℕ) (versions : List PackageMeta) : List PackageMeta :=
  if versions.length ≤ keep then []
  else (versions.insertionSort byFilename).take (versions.length-keep)

def RepoFile.path (f : RepoFile) : String :=
  keyOf (pathOf (some (categoryName f.package.category)) f.fileName)

def Repository.remove (r : Repository) (paths : List String) : Repository where
  files := r.files.filter fun f => f.path ∉ paths
  distinct := (List.filter_sublist.map _).nodup r.distinct

variable (env : Codecs)

/-- `cleanup_old_versions`, where every removal succeeds. The index written at the
end is a file of its own. -/
def cleanupOldVersions (keep : ℕ) (r : Repository) : Except String (Repository × ℕ) := do
  let entries ← scanPackages env (dirOf r)
  let old := (versionGroups entries).flatMap (oldVersions keep)
  pure (r.remove (old.map (·.relativePath)),old.length)

def fileMeta (f : RepoFile) : PackageMeta where
  cpv := cpvOf (some (categoryName f.package.category)) f.fileName
  filename := f.fileName.text
  relativePath := f.path
  size := f.content.length
  sha256 := env.sha256 f.content
  isGpkg := gpkgSuffix.isSuffixOf f.fileName.text.toList

theorem isPackage_text (f : RepoFile) : isPackage f.text := by
  have htext : f.text = (f.package.name.1++ '-'::f.version.text)++f.format.suffix := by
    simp [RepoFile.text]
  rw [htext,isPackage,Bool.or_eq_true]
  cases f.format with
  | gpkg => exact .inl (List.isSuffixOf_iff_suffix.mpr (List.suffix_append _ _))
  | tbz2 =>
    right
    simp [extension,Format.suffix,tbz2Suffix]

theorem packageFiles_categoryDir (r : Repository) (c : Category) :
    packageFiles (categoryDir r c).listing = (r.inCategory c).map diskFile := by
  have hall : ((r.inCategory c).map diskFile).filter
      (fun file => isPackage file.name.text.toList) = (r.inCategory c).map diskFile := by
    rw [List.filter_eq_self]
    intro file hfile
    obtain ⟨f,-,rfl⟩ := List.mem_map.mp hfile
    have htext : (diskFile f).name.text.toList = f.text := String.toList_ofList
    rw [htext]
    exact isPackage_text f
  exact hall

theorem isCategoryDir_categoryName (c : Category) :
    isCategoryDir (categoryName c) = c.1.contains '-' := by
  have hc := c.2
  simp only [isCategory,Bool.and_eq_true,decide_eq_true_eq] at hc
  have htext : (categoryName c).text.toList = c.1 := String.toList_ofList
  have hdot : startsWith (categoryName c).text "." = false := by
    rw [startsWith,htext]
    cases h : c.1 with
    | nil => exact absurd h hc.1.1
    | cons d ds =>
      have hd : ('.' == d) = false := by
        rw [beq_eq_false_iff_ne]
        rintro rfl
        rw [h] at hc
        simp at hc
      simp [List.isPrefixOf,hd]
  rw [isCategoryDir,hdot,Bool.not_false,Bool.and_true,htext]
  cases hhyphen : c.1.contains '-' with
  | false => rfl
  | true =>
    have hpackages : (categoryName c).text ≠ "Packages" := by
      intro h
      rw [← htext,h] at hhyphen
      revert hhyphen
      decide
    rw [Bool.true_and,bne_iff_ne]
    exact hpackages

def scannedEntries (r : Repository) : List PackageMeta :=
  (r.categories.filter fun c => c.1.contains '-').flatMap fun c =>
    (r.inCategory c).map (fileMeta env)

theorem scanPackages_dirOf (r : Repository) :
    scanPackages env (dirOf r) = .ok (scannedEntries env r) := by
  have hdirs : categoryDirs (dirOf r) =
      (r.categories.filter fun c => c.1.contains '-').map (categoryDir r) := by
    rw [categoryDirs,dirOf,List.filter_map]
    congr 1
    refine List.filter_congr fun c _ => ?_
    exact isCategoryDir_categoryName c
  have hscannable : scannable (dirOf r) := by
    rw [scannable,hdirs]
    simp [dirOf,categoryDir]
  have hfiles (c : Category) : ((packageFiles (categoryDir r c).listing).map
      fun file => (⟨some (categoryDir r c).name,(categoryDir r c).utf8,file⟩ : Scanned)).filterMap
        (metaOf env) = (r.inCategory c).map (fileMeta env) := by
    rw [packageFiles_categoryDir,List.map_map,List.filterMap_map]
    rw [← List.filterMap_eq_map]
    refine List.filterMap_congr fun f hf => ?_
    rw [Repository.inCategory,List.mem_filter,decide_eq_true_eq] at hf
    rw [← hf.2]
    rfl
  have hscanned : (scannedFiles (dirOf r)).filterMap (metaOf env) = scannedEntries env r := by
    have htop : packageFiles (dirOf r).top = [] := rfl
    rw [scannedFiles,htop,hdirs,List.map_nil,List.nil_append,List.flatMap_map,
      List.filterMap_flatMap,scannedEntries]
    simp only [hfiles]
  rw [scanPackages_eq env hscannable,hscanned]

def packageBase (p : Package) : String := String.ofList p.category.1++"/"++String.ofList p.name.1

theorem packageBase_inj {p q : Package} (h : packageBase p = packageBase q) : p = q := by
  have hslash (c : Category) : '/' ∉ (String.ofList c.1).toList := by
    rw [String.toList_ofList]
    exact slash_not_mem_category c.2
  obtain ⟨hc,hn⟩ := (slash_text_inj (hslash p.category) (hslash q.category)).mp h
  cases p
  cases q
  rw [String.ofList_inj] at hc hn
  rw [Package.mk.injEq]
  exact ⟨Subtype.ext hc,Subtype.ext hn⟩

theorem extractPackageBase_fileMeta (f : RepoFile) :
    extractPackageBase (fileMeta env f).cpv = packageBase f.package := by
  have hfile : f.fileName.text.toList =
      (String.ofList f.package.name.1++"-"++String.ofList f.version.text).toList++
        f.format.suffix := by
    simp [RepoFile.fileName,RepoFile.text]
  have hversion : isVersion (String.ofList f.version.text).toList := by
    rw [String.toList_ofList]
    exact isVersion_iff.mpr ⟨f.version,rfl⟩
  have hcpv : cpvOf (some (categoryName f.package.category)) f.fileName = _ :=
    cpvOf_file (by cases f.format <;> decide) hfile
  rw [fileMeta,hcpv]
  exact extractPackageBase_version hversion (packageBase f.package)

theorem flatMap_single {α β : Type} [DecidableEq α] {l : List α} (h : l.Nodup) (a : α)
    (x : List β) : (l.flatMap fun c => if c = a then x else []) = if a ∈ l then x else [] := by
  induction l with
  | nil => rfl
  | cons c l ih =>
    obtain ⟨hc,hl⟩ := List.nodup_cons.mp h
    rw [List.flatMap_cons,ih hl]
    by_cases he : c = a
    · subst he
      simp [hc]
    · simp [he,Ne.symm he]

theorem filter_inCategory (r : Repository) (p : Package) (c : Category) :
    (r.inCategory c).filter (·.package = p) = if c = p.category then r.ofPackage p else [] := by
  rw [Repository.inCategory,List.filter_filter]
  split
  · next h =>
    subst h
    refine List.filter_congr fun f _ => ?_
    rw [Bool.eq_iff_iff,Bool.and_eq_true,decide_eq_true_eq,decide_eq_true_eq]
    exact ⟨And.left,fun hf => ⟨hf,by rw [hf]⟩⟩
  · next h =>
    rw [List.filter_eq_nil_iff]
    intro f _ hf
    rw [Bool.and_eq_true,decide_eq_true_eq,decide_eq_true_eq] at hf
    exact h (by rw [← hf.2,hf.1])

theorem ofPackage_eq_nil {r : Repository} {p : Package} (h : p.category ∉ r.categories) :
    r.ofPackage p = [] := by
  rw [Repository.ofPackage,List.filter_eq_nil_iff]
  intro f hf hp
  rw [decide_eq_true_eq] at hp
  refine h (List.mem_dedup.mpr (List.mem_map.mpr ⟨f,hf,?_⟩))
  rw [hp]

theorem group_eq (r : Repository) (p : Package) :
    ((scannedEntries env r).filter fun e => extractPackageBase e.cpv = packageBase p) =
      if p.category.1.contains '-' then (r.ofPackage p).map (fileMeta env) else [] := by
  have hgroup (c : Category) : (((r.inCategory c).map (fileMeta env)).filter
      fun e => extractPackageBase e.cpv = packageBase p) =
        if c = p.category then (r.ofPackage p).map (fileMeta env) else [] := by
    have hbase : ((fun e : PackageMeta => decide (extractPackageBase e.cpv = packageBase p)) ∘
        fileMeta env) = fun f : RepoFile => decide (f.package = p) := by
      funext f
      simp only [Function.comp,extractPackageBase_fileMeta]
      exact decide_eq_decide.mpr ⟨packageBase_inj,fun h => by rw [h]⟩
    rw [List.filter_map,hbase,filter_inCategory]
    split <;> rfl
  rw [scannedEntries,List.filter_flatMap]
  simp only [hgroup]
  have hnodup : r.categories.Nodup := List.nodup_dedup _
  rw [flatMap_single (hnodup.filter _)]
  by_cases hh : p.category.1.contains '-'
  · rw [if_pos hh]
    by_cases hm : p.category ∈ r.categories
    · rw [if_pos (List.mem_filter.mpr ⟨hm,hh⟩)]
    · rw [ofPackage_eq_nil hm]
      simp
  · have hm : p.category ∉ r.categories.filter fun c => c.1.contains '-' :=
      fun hm => hh (List.mem_filter.mp hm).2
    rw [if_neg hh,if_neg hm]

theorem oldVersions_eq (keep : ℕ) (versions : List PackageMeta) :
    oldVersions keep versions =
      (versions.insertionSort byFilename).take (versions.length-keep) := by
  unfold oldVersions
  split
  · next h => rw [Nat.sub_eq_zero_of_le h,List.take_zero]
  · rfl

def oldFiles (keep : ℕ) (r : Repository) (p : Package) : List RepoFile :=
  ((r.ofPackage p).insertionSort (byKey RepoFile.text)).take ((r.ofPackage p).length-keep)

theorem oldVersions_group (keep : ℕ) (r : Repository) (p : Package) :
    oldVersions keep ((r.ofPackage p).map (fileMeta env)) =
      (oldFiles keep r p).map (fileMeta env) := by
  have hsort : ((r.ofPackage p).insertionSort (byKey RepoFile.text)).map (fileMeta env) =
      ((r.ofPackage p).map (fileMeta env)).insertionSort byFilename := by
    refine List.map_insertionSort _ _ (fileMeta env) _ fun f _ g _ => ?_
    have htext (f : RepoFile) : (fileMeta env f).filename.toList = f.text := String.toList_ofList
    rw [byFilename,htext,htext]
    rfl
  rw [oldVersions_eq,← hsort,List.length_map,oldFiles,List.map_take]

theorem mem_old_iff (keep : ℕ) (entries : List PackageMeta) (e : PackageMeta) :
    e ∈ (versionGroups entries).flatMap (oldVersions keep) ↔
      e ∈ oldVersions keep (entries.filter
        fun e' => extractPackageBase e'.cpv = extractPackageBase e.cpv) := by
  have hsub {versions : List PackageMeta} (h : e ∈ oldVersions keep versions) :
      e ∈ versions := by
    rw [oldVersions_eq] at h
    exact (List.mem_insertionSort _).mp (List.mem_of_mem_take h)
  simp only [versionGroups,List.mem_flatMap,List.mem_map]
  constructor
  · rintro ⟨_,⟨base,-,rfl⟩,he⟩
    have hbase := (List.mem_filter.mp (hsub he)).2
    rw [decide_eq_true_eq] at hbase
    rwa [hbase]
  · intro he
    refine ⟨_,⟨_,List.mem_dedup.mpr (List.mem_map.mpr ⟨e,?_,rfl⟩),rfl⟩,he⟩
    exact (List.mem_filter.mp (hsub he)).1

theorem path_eq (f : RepoFile) :
    f.path = String.ofList f.package.category.1++"/"++String.ofList f.text := rfl

variable {r : Repository} {f : RepoFile}

theorem path_inj {g : RepoFile} (hf : f ∈ r.files) (hg : g ∈ r.files) (h : f.path = g.path) :
    f = g := by
  have hslash (c : Category) : '/' ∉ (String.ofList c.1).toList := by
    rw [String.toList_ofList]
    exact slash_not_mem_category c.2
  rw [path_eq,path_eq,slash_text_inj (hslash _) (hslash _),String.ofList_inj,String.ofList_inj] at h
  refine List.inj_on_of_nodup_map r.distinct hf hg ?_
  rw [Prod.mk.injEq]
  exact ⟨Subtype.ext h.1,h.2⟩

def cleaned (keep : ℕ) (r : Repository) : Repository :=
  r.remove (((versionGroups (scannedEntries env r)).flatMap (oldVersions keep)).map
    (·.relativePath))

theorem mem_ofPackage {p : Package} : f ∈ r.ofPackage p ↔ f ∈ r.files ∧ f.package = p := by
  rw [Repository.ofPackage,List.mem_filter,decide_eq_true_eq]

theorem mem_scannedEntries {e : PackageMeta} (h : e ∈ scannedEntries env r) :
    ∃ f ∈ r.files, e = fileMeta env f := by
  rw [scannedEntries,List.mem_flatMap] at h
  obtain ⟨c,-,he⟩ := h
  obtain ⟨f,hf,rfl⟩ := List.mem_map.mp he
  exact ⟨f,(List.mem_filter.mp hf).1,rfl⟩

theorem path_removed_iff (keep : ℕ) (hf : f ∈ r.files) :
    f.path ∈ ((versionGroups (scannedEntries env r)).flatMap (oldVersions keep)).map
      (·.relativePath) ↔ f.package.category.1.contains '-' ∧ f ∈ oldFiles keep r f.package := by
  have hold (g : RepoFile) : fileMeta env g ∈
      (versionGroups (scannedEntries env r)).flatMap (oldVersions keep) ↔
        g.package.category.1.contains '-' ∧
          fileMeta env g ∈ (oldFiles keep r g.package).map (fileMeta env) := by
    rw [mem_old_iff,extractPackageBase_fileMeta,group_eq]
    split
    · next h => rw [oldVersions_group]; exact (and_iff_right h).symm
    · next h =>
      refine iff_of_false ?_ fun hc => h hc.1
      simp [oldVersions_eq]
  rw [List.mem_map]
  constructor
  · rintro ⟨e,he,hpath⟩
    have hscan : e ∈ scannedEntries env r := by
      rw [mem_old_iff,oldVersions_eq] at he
      exact (List.mem_filter.mp ((List.mem_insertionSort _).mp (List.mem_of_mem_take he))).1
    obtain ⟨g,hg,rfl⟩ := mem_scannedEntries env hscan
    obtain rfl := path_inj hg hf hpath
    obtain ⟨hh,hm⟩ := (hold g).mp he
    obtain ⟨g',hg',hmeta⟩ := List.mem_map.mp hm
    have hgr : g' ∈ r.files :=
      (mem_ofPackage.mp ((List.mem_insertionSort _).mp (List.mem_of_mem_take hg'))).1
    have hp : g'.path = g.path := congrArg PackageMeta.relativePath hmeta
    rw [path_inj hgr hg hp] at hg'
    exact ⟨hh,hg'⟩
  · rintro ⟨hh,hm⟩
    exact ⟨fileMeta env f,(hold f).mpr ⟨hh,List.mem_map_of_mem hm⟩,rfl⟩

theorem cleaned_ofPackage (keep : ℕ) (r : Repository) (p : Package) :
    (cleaned env keep r).ofPackage p =
      if p.category.1.contains '-' then (r.ofPackage p).filter fun f => f ∉ oldFiles keep r p
      else r.ofPackage p := by
  have hremoved (f : RepoFile) (hf : f ∈ r.files) (hp : f.package = p) :
      decide (f.path ∉ ((versionGroups (scannedEntries env r)).flatMap (oldVersions keep)).map
        (·.relativePath)) =
          decide ¬(p.category.1.contains '-' ∧ f ∈ oldFiles keep r p) := by
    rw [decide_eq_decide,path_removed_iff env keep hf,hp]
  have hcleaned : (cleaned env keep r).ofPackage p = (r.ofPackage p).filter fun f =>
      ¬(p.category.1.contains '-' ∧ f ∈ oldFiles keep r p) := by
    rw [Repository.ofPackage,cleaned,Repository.remove,List.filter_filter,Repository.ofPackage,
      List.filter_filter]
    refine List.filter_congr fun f hf => ?_
    by_cases hp : f.package = p
    · rw [hremoved f hf hp,Bool.and_comm]
    · simp [hp]
  rw [hcleaned]
  split
  · next h => simp only [h,true_and]
  · next h =>
    rw [List.filter_eq_self]
    intro f _
    rw [decide_eq_true_eq]
    exact fun hc => h hc.1

end

variable (env : Codecs)

/-- Of every package the right number of files remains, and none that was removed
is newer than one that remains. -/
structure KeepsNewest (keep : ℕ) (before after : Repository) : Prop where
  count : ∀ p, (after.ofPackage p).length = min (before.ofPackage p).length keep
  newest : ∀ p, ∀ x ∈ before.ofPackage p, x ∉ after.ofPackage p → ∀ y ∈ after.ofPackage p,
    pmsCompare x.version y.version ≠ .gt

def namesBefore (r : Repository) (x : RepoFile) : ℕ :=
  rank RepoFile.text (r.ofPackage x.package) x

/-- No package of a category without a hyphen has more files than are kept. Of any
other one, no file with at least `keep` file names behind its own is newer than one
with fewer. -/
structure NamesTellAge (keep : ℕ) (r : Repository) : Prop where
  scanned : ∀ p : Package, p.category.1.contains '-' = false → (r.ofPackage p).length ≤ keep
  ordered : ∀ p : Package, p.category.1.contains '-' → ∀ x ∈ r.ofPackage p,
    ∀ y ∈ r.ofPackage p, namesBefore r x+keep < (r.ofPackage p).length →
      (r.ofPackage p).length ≤ namesBefore r y+keep → pmsCompare x.version y.version ≠ .gt

theorem nodup_ofPackage (r : Repository) (p : Package) :
    ((r.ofPackage p).map RepoFile.text).Nodup := by
  have hsub : (r.ofPackage p).Sublist (r.inCategory p.category) := by
    have h := filter_inCategory r p p.category
    rw [if_pos rfl] at h
    rw [← h]
    exact List.filter_sublist
  exact (hsub.map _).nodup (nodup_inCategory r p.category)

theorem mem_oldFiles_iff (keep : ℕ) {r : Repository} {p : Package} {x : RepoFile}
    (hx : x ∈ r.ofPackage p) :
    x ∈ oldFiles keep r p ↔ namesBefore r x+keep < (r.ofPackage p).length := by
  rw [oldFiles,mem_take_insertionSort RepoFile.text (nodup_ofPackage r p) _ hx,namesBefore,
    (mem_ofPackage.mp hx).2]
  omega

/-- The cleanup always gets through, and it keeps the newest versions exactly if
the file names tell which these are. -/
theorem cleanup_keeps_newest_iff (keep : ℕ) (r : Repository) :
    ∃ after removed, cleanupOldVersions env keep r = .ok (after,removed) ∧
      (KeepsNewest keep r after ↔ NamesTellAge keep r) := by
  refine ⟨cleaned env keep r,_,by rw [cleanupOldVersions,scanPackages_dirOf]; rfl,?_⟩
  have hscanned {p : Package} (hp : p.category.1.contains '-') :
      (cleaned env keep r).ofPackage p =
        (r.ofPackage p).filter fun f => f ∉ oldFiles keep r p := by
    rw [cleaned_ofPackage,if_pos hp]
  have hother {p : Package} (hp : p.category.1.contains '-' = false) :
      (cleaned env keep r).ofPackage p = r.ofPackage p := by
    rw [cleaned_ofPackage,hp]
    rfl
  constructor
  · intro h
    refine ⟨fun p hp => ?_,fun p hp x hx y hy hold hnew => ?_⟩
    · have hcount := h.count p
      rw [hother hp] at hcount
      omega
    · refine h.newest p x hx ?_ y ?_
      · rw [hscanned hp,List.mem_filter,decide_eq_true_eq]
        exact fun hc => hc.2 ((mem_oldFiles_iff keep hx).mpr hold)
      · rw [hscanned hp,List.mem_filter,decide_eq_true_eq,mem_oldFiles_iff keep hy]
        exact ⟨hy,by omega⟩
  · intro h
    refine ⟨fun p => ?_,fun p x hx hgone y hy => ?_⟩
    · cases hp : p.category.1.contains '-' with
      | false =>
        have hfew := h.scanned p hp
        rw [hother hp]
        omega
      | true =>
        have hlength := length_filter_not_mem_take RepoFile.text (nodup_ofPackage r p)
          ((r.ofPackage p).length-keep)
        rw [hscanned hp]
        have hmin : (r.ofPackage p).length-((r.ofPackage p).length-keep) =
            min (r.ofPackage p).length keep := by omega
        rw [← hmin]
        exact hlength
    · cases hp : p.category.1.contains '-' with
      | false =>
        rw [hother hp] at hgone
        exact absurd hx hgone
      | true =>
        rw [hscanned hp,List.mem_filter,decide_eq_true_eq] at hgone hy
        have hold : x ∈ oldFiles keep r p := by
          by_contra hnot
          exact hgone ⟨hx,hnot⟩
        rw [mem_oldFiles_iff keep hx] at hold
        rw [mem_oldFiles_iff keep hy.1] at hy
        exact h.ordered p hp x hx y hy.1 hold (by omega)

def jq : Package where
  category := ⟨['a','p','p','-','m','i','s','c'],by decide⟩
  name := ⟨['j','q'],by decide⟩

def jqRelease : RepoFile where
  package := jq
  version := ⟨⟨['1'],by decide⟩,[⟨['7'],by decide⟩],none,[],none⟩
  format := .gpkg
  content := []

def jqRevision : RepoFile where
  package := jq
  version := ⟨⟨['1'],by decide⟩,[⟨['7'],by decide⟩],none,[],some ⟨['1'],by decide⟩⟩
  format := .gpkg
  content := []

def jqRepository : Repository := ⟨[jqRelease,jqRevision],by decide⟩

/-- Of `jq-1.7` and `jq-1.7-r1` the newer one is removed, because a hyphen sorts
before a dot. -/
theorem newer_revision_removed :
    (cleanupOldVersions plainCodecs 1 jqRepository).map (fun done => (done.1.files,done.2)) =
        .ok ([jqRelease],1) ∧
      pmsCompare jqRevision.version jqRelease.version = .gt := by
  decide

end Remerge.OldVersions
