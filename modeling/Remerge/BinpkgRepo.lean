import Remerge.PackageNames
import Remerge.FileNames
import Remerge.ServerTasks

/-!
# The binary package repository of a server

All workers write their packages into one directory, flat or one level deep in
category directories. When a build ends, the server scans the directory and
reports the packages whose name without the version is one it was asked for or
was told of.
-/

set_option autoImplicit false

namespace Remerge.BinpkgRepo
open RustText SnapshotTypes FileNames PackageNames SnapshotCleanup ServerState ServerOps
open ServerTasks

/-- What stands before the last hyphen that has a digit behind it. -/
def cutVersion : List Char → Option (List Char)
  | [] => none
  | c::cs =>
    match cutVersion cs with
    | some front => some (c::front)
    | none => if c = '-' ∧ cs.head?.any Char.isDigit = true then some [] else none

def extractPackageBase (cpv : String) : String :=
  String.ofList ((cutVersion cpv.toList).getD cpv.toList)

def operatorChars : List Char := ['>','=','<','~','!']

def trimOperators (atom : String) : String :=
  String.ofList (atom.toList.dropWhile (operatorChars.contains ·))

def matchesAtom (cpv atom : String) : Bool :=
  extractPackageBase (trimOperators atom) == extractPackageBase cpv

def matchesBuilt (cpv built : String) : Bool :=
  extractPackageBase built == extractPackageBase cpv

theorem cutVersion_append {d : Char} {back : List Char} (front : List Char)
    (hd : d.isDigit) (h : cutVersion (d::back) = none) :
    cutVersion (front++ '-'::d::back) = some front := by
  induction front with
  | nil => simp [cutVersion.eq_2 '-',h,hd]
  | cons c front ih => rw [List.cons_append,cutVersion,ih]

variable {cs front : List Char}

theorem cutVersion_some (h : cutVersion cs = some front) :
    ∃ d back, cs = front++ '-'::d::back ∧ d.isDigit ∧ cutVersion (d::back) = none := by
  induction cs generalizing front with
  | nil => cases h
  | cons c cs ih =>
    rw [cutVersion] at h
    cases hcut : cutVersion cs with
    | some front' =>
      rw [hcut] at h
      obtain ⟨d,back,hcs,hd,hback⟩ := ih hcut
      exact ⟨d,back,by rw [← Option.some.inj h,hcs,List.cons_append],hd,hback⟩
    | none =>
      rw [hcut] at h
      simp only at h
      split at h
      · next hc =>
        cases cs with
        | nil => simp at hc
        | cons d back =>
          exact ⟨d,back,by rw [← Option.some.inj h,hc.1]; rfl,by simpa using hc.2,hcut⟩
      · cases h

theorem cutVersion_tail {c : Char} (h : cutVersion (c::cs) = none) : cutVersion cs = none := by
  rw [cutVersion] at h
  cases hcut : cutVersion cs with
  | none => rfl
  | some front =>
    rw [hcut] at h
    cases h

theorem cutVersion_eq_none_iff : cutVersion cs = none ↔ NoHyphenDigit cs := by
  constructor
  · rintro h front back d rfl
    induction front with
    | nil =>
      rw [← Bool.not_eq_true]
      intro hd
      rw [List.nil_append] at h
      have hsome := cutVersion_append [] hd (cutVersion_tail h)
      rw [List.nil_append,h] at hsome
      cases hsome
    | cons c front ih => exact ih (cutVersion_tail h)
  · intro h
    cases hcut : cutVersion cs with
    | none => rfl
    | some front =>
      obtain ⟨d,back,hcs,hd,-⟩ := cutVersion_some hcut
      rw [h front back d hcs] at hd
      cases hd

theorem cutVersion_eq_some_iff :
    cutVersion cs = some front ↔ ∃ d back, cs = front++ '-'::d::back ∧ d.isDigit ∧
      NoHyphenDigit (d::back) := by
  simp only [← cutVersion_eq_none_iff]
  constructor
  · exact cutVersion_some
  · rintro ⟨d,back,rfl,hd,h⟩
    exact cutVersion_append front hd h

section

/-- A regular file as a listing shows it. A name that is not UTF-8 is shown
with replacement characters, and a file may be unreadable. Who wrote it last is
not recorded in the directory. -/
structure PackageFile where
  name : FileName
  utf8 : Bool
  content : Option Bytes
  madeBy : Option WorkorderId
  deriving DecidableEq

/-- The regular files of a directory. It may fail to open, or an entry may fail
to be read. -/
structure Listing where
  opens : Bool
  whole : Bool
  files : List PackageFile
  distinct : ((files.filter (·.utf8)).map (·.name)).Nodup

structure Subdirectory where
  name : FileName
  utf8 : Bool
  listing : Listing

structure BinpkgDir where
  top : Listing
  subdirectories : List Subdirectory
  distinct : ((subdirectories.filter (·.utf8)).map (·.name)).Nodup

def extension (name : List Char) : Option (List Char) :=
  match name.reverse.dropWhile (· != '.') with
  | _::before =>
    if before.isEmpty then none else some (name.reverse.takeWhile (· != '.')).reverse
  | [] => none

def gpkgSuffix : List Char := ['.','g','p','k','g','.','t','a','r']

def tbz2Suffix : List Char := ['.','t','b','z','2']

def isPackage (name : List Char) : Bool :=
  gpkgSuffix.isSuffixOf name || extension name == some ['t','b','z','2']

/-- `str::strip_suffix`. -/
def stripSuffix (suffix name : List Char) : Option (List Char) :=
  if suffix.isSuffixOf name then some (name.take (name.length-suffix.length)) else none

def nameWithoutExt (name : List Char) : List Char :=
  ((stripSuffix gpkgSuffix name).or (stripSuffix tbz2Suffix name)).getD name

structure PackageMeta where
  cpv : String
  filename : String
  relativePath : String
  size : ℕ
  sha256 : Digest
  isGpkg : Bool
  deriving DecidableEq, Repr

variable (env : Codecs)

def cpvOf (category : Option FileName) (name : FileName) : String :=
  let bare := String.ofList (nameWithoutExt name.text.toList)
  match category with
  | some cat => cat.text++"/"++bare
  | none => bare

def pathOf (category : Option FileName) (name : FileName) : List FileName :=
  name::category.toList

def readPackageMeta (category : Option FileName) (file : PackageFile) : Option PackageMeta :=
  file.content.map fun data =>
    { cpv := cpvOf category file.name
      filename := file.name.text
      relativePath := keyOf (pathOf category file.name)
      size := data.length
      sha256 := env.sha256 data
      isGpkg := gpkgSuffix.isSuffixOf file.name.text.toList }

def scanDirectory (category : Option FileName) (listing : Listing) :
    Except String (List PackageMeta) :=
  if !listing.opens then .ok []
  else if !listing.whole then .error "Failed to read a directory entry"
  else .ok ((listing.files.filter fun file => isPackage file.name.text.toList).filterMap
    (readPackageMeta env category))

def isCategoryDir (name : FileName) : Bool :=
  name.text.toList.contains '-' && !startsWith name.text "." && name.text != "Packages"

def categoryDirs (dir : BinpkgDir) : List Subdirectory :=
  dir.subdirectories.filter fun sub => isCategoryDir sub.name

def scanCategories : List Subdirectory → Except String (List PackageMeta)
  | [] => .ok []
  | sub::rest => do
    let found ← scanDirectory env (some sub.name) sub.listing
    let others ← scanCategories rest
    pure (found++others)

/-- An unreadable category is passed over, an unreadable root is not. -/
def scanPackages (dir : BinpkgDir) : Except String (List PackageMeta) := do
  let flat ← scanDirectory env none dir.top
  if !dir.top.opens then throw "Failed to read the binpkg directory"
  let nested ← scanCategories env (categoryDirs dir)
  pure (flat++nested)

structure Scanned where
  category : Option FileName
  inUtf8 : Bool
  file : PackageFile

def packageFiles (listing : Listing) : List PackageFile :=
  if listing.opens then listing.files.filter fun file => isPackage file.name.text.toList else []

def scannedFiles (dir : BinpkgDir) : List Scanned :=
  (packageFiles dir.top).map (⟨none,true,·⟩)++
    (categoryDirs dir).flatMap fun sub =>
      (packageFiles sub.listing).map (⟨some sub.name,sub.utf8,·⟩)

def scannable (dir : BinpkgDir) : Bool :=
  dir.top.opens && dir.top.whole &&
    (categoryDirs dir).all fun sub => !sub.listing.opens || sub.listing.whole

def metaOf (s : Scanned) : Option PackageMeta := readPackageMeta env s.category s.file

variable {env} in
theorem metaOf_eq_some {s : Scanned} {found : PackageMeta} (h : metaOf env s = some found) :
    ∃ data, s.file.content = some data ∧
      found.relativePath = keyOf (pathOf s.category s.file.name) ∧
      found.size = data.length ∧ found.sha256 = env.sha256 data := by
  obtain ⟨data,hdata,rfl⟩ := Option.map_eq_some_iff.mp h
  exact ⟨data,hdata,rfl,rfl,rfl⟩

theorem scanDirectory_eq (category : Option FileName) (utf8 : Bool) (listing : Listing) :
    (listing.opens → listing.whole) →
      scanDirectory env category listing =
        .ok (((packageFiles listing).map (⟨category,utf8,·⟩)).filterMap (metaOf env)) := by
  intro h
  unfold scanDirectory packageFiles
  cases ho : listing.opens with
  | false => rfl
  | true =>
    rw [h ho,List.filterMap_map]
    rfl

theorem scanDirectory_error {category : Option FileName} {listing : Listing}
    (ho : listing.opens) (hw : listing.whole = false) :
    scanDirectory env category listing = .error "Failed to read a directory entry" := by
  simp [scanDirectory,ho,hw]

variable {subs : List Subdirectory} {dir : BinpkgDir}

theorem scanCategories_eq (h : ∀ sub ∈ subs, sub.listing.opens → sub.listing.whole) :
    scanCategories env subs = .ok ((subs.flatMap fun sub =>
      (packageFiles sub.listing).map (⟨some sub.name,sub.utf8,·⟩)).filterMap (metaOf env)) := by
  induction subs with
  | nil => rfl
  | cons sub subs ih =>
    rw [scanCategories,scanDirectory_eq env _ sub.utf8 _ (h sub (by simp)),
      ih fun s hs => h s (by simp [hs]),List.flatMap_cons,List.filterMap_append]
    rfl

theorem scanCategories_error {sub : Subdirectory} (hs : sub ∈ subs) (ho : sub.listing.opens)
    (hw : sub.listing.whole = false) : ∃ e, scanCategories env subs = .error e := by
  induction subs with
  | nil => cases hs
  | cons first subs ih =>
    rw [scanCategories]
    cases hfirst : scanDirectory env (some first.name) first.listing with
    | error e => exact ⟨e,rfl⟩
    | ok found =>
      rcases List.mem_cons.mp hs with rfl | hs
      · rw [scanDirectory_error env ho hw] at hfirst
        cases hfirst
      · obtain ⟨e,he⟩ := ih hs
        rw [he]
        exact ⟨e,rfl⟩

theorem scanPackages_eq (h : scannable dir) :
    scanPackages env dir = .ok ((scannedFiles dir).filterMap (metaOf env)) := by
  simp only [scannable,Bool.and_eq_true,List.all_eq_true,Bool.or_eq_true,Bool.not_eq_true'] at h
  obtain ⟨⟨ho,hw⟩,hsubs⟩ := h
  have hcategories : scanCategories env (categoryDirs dir) = _ :=
    scanCategories_eq env fun sub hs hopen => by
      rcases hsubs sub hs with hno | hw
      · rw [hno] at hopen
        cases hopen
      · exact hw
  rw [scanPackages,scanDirectory_eq env none true _ fun _ => hw,ho,hcategories,scannedFiles,
    List.filterMap_append]
  rfl

theorem scanPackages_error (h : scannable dir = false) : ∃ e, scanPackages env dir = .error e := by
  rw [scanPackages]
  cases htop : scanDirectory env none dir.top with
  | error e => exact ⟨e,rfl⟩
  | ok flat =>
    cases ho : dir.top.opens with
    | false => exact ⟨_,rfl⟩
    | true =>
      have hw : dir.top.whole := by
        cases hw : dir.top.whole with
        | true => rfl
        | false =>
          rw [scanDirectory_error env ho hw] at htop
          cases htop
      rw [scannable,ho,hw,Bool.true_and,Bool.true_and,List.all_eq_false] at h
      obtain ⟨sub,hs,hbad⟩ := h
      simp only [Bool.not_eq_true,Bool.or_eq_false_iff,Bool.not_eq_false'] at hbad
      obtain ⟨e,he⟩ := scanCategories_error env hs hbad.1 hbad.2
      rw [he]
      exact ⟨e,rfl⟩

end

variable (env : Codecs)

def isWanted (atoms built : List String) (found : PackageMeta) : Bool :=
  atoms.any (matchesAtom found.cpv) || built.any (matchesBuilt found.cpv)

def toBuiltPackage (found : PackageMeta) : BuiltPackage :=
  ⟨found.cpv,found.relativePath,found.sha256,found.size⟩

def scanFor (dir : BinpkgDir) (atoms built : List String) : Except String (List BuiltPackage) :=
  (scanPackages env dir).map fun found => (found.filter (isWanted atoms built)).map toBuiltPackage

def reportedPackages (scan : Except String (List BuiltPackage)) (built : List String) :
    List BuiltPackage :=
  let scanned := match scan with
    | .ok packages => packages
    | .error _ => packagesFromEvents built
  if scanned.isEmpty then packagesFromEvents built else scanned

def wantedFiles (dir : BinpkgDir) (atoms built : List String) : List PackageMeta :=
  ((scannedFiles dir).filterMap (metaOf env)).filter (isWanted atoms built)

def fallsBack (dir : BinpkgDir) (atoms built : List String) : Bool :=
  !scannable dir || (wantedFiles env dir atoms built).isEmpty

theorem reportedPackages_eq (dir : BinpkgDir) (atoms built : List String) :
    reportedPackages (scanFor env dir atoms built) built =
      if fallsBack env dir atoms built then packagesFromEvents built
      else (wantedFiles env dir atoms built).map toBuiltPackage := by
  cases hs : scannable dir with
  | false =>
    obtain ⟨e,he⟩ := scanPackages_error env hs
    rw [scanFor,he,fallsBack,hs]
    change (if (packagesFromEvents built).isEmpty then packagesFromEvents built
      else packagesFromEvents built) = _
    simp
  | true =>
    rw [scanFor,scanPackages_eq env hs,fallsBack,hs]
    change (if ((wantedFiles env dir atoms built).map toBuiltPackage).isEmpty then _ else _) = _
    rw [List.isEmpty_map]
    rfl

variable {env} in
theorem mem_wantedFiles {dir : BinpkgDir} {atoms built : List String} {found : PackageMeta} :
    found ∈ wantedFiles env dir atoms built ↔ (∃ s ∈ scannedFiles dir, metaOf env s = some found) ∧
      isWanted atoms built found := by
  rw [wantedFiles,List.mem_filter,List.mem_filterMap]

end Remerge.BinpkgRepo
