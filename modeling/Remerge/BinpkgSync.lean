import Remerge.BinpkgRepo

/-!
# The client's check of reported packages

For each package of a result the client makes its path safe, takes its own copy
if that has the reported size and hash, and otherwise downloads the file and
compares both. Its file system and the binhost are outside of it.
-/

set_option autoImplicit false

namespace Remerge.BinpkgSync
open RustText SnapshotTypes FileNames StagingPaths ServerState ServerTasks BinpkgRepo

section

/-- What the client's file system and HTTP client do. Paths are those below
PKGDIR; a fetch also writes the temporary file. -/
structure ClientIo where
  createDirAll : List FileName → Except Failure Unit
  stored : List FileName → Except Failure (Option Bytes)
  fetch : String → Except Failure Bytes
  rename : List FileName → Except Failure Unit

inductive Disposition where
  | cached | downloaded
  deriving DecidableEq, Repr

variable (env : Codecs)

def packageUrl (binhostUri binpkgPath : String) : String :=
  String.ofList (trimEndSlashes binhostUri.toList)++"/"++
    String.ofList (binpkgPath.toList.dropWhile (· == '/'))

def verified (package : BuiltPackage) (data : Bytes) : Bool :=
  data.length == package.size && eqIgnoreAsciiCase (env.sha256 data) package.sha256

def isPackageCached (io : ClientIo) (path : List FileName) (package : BuiltPackage) :
    Except Failure Bool :=
  (io.stored path).map fun existing => existing.any (verified env package)

def invalidBinpkgPath (package : BuiltPackage) : Failure :=
  .bail s!"Invalid binpkg path '{package.binpkgPath}'"

def sizeMismatch (package : BuiltPackage) (data : Bytes) : Failure :=
  .bail s!"Downloaded {data.length} but expected {package.size} bytes for {package.atom}"

def shaMismatch (package : BuiltPackage) (data : Bytes) : Failure :=
  .bail ("SHA256 mismatch for "++package.atom++": expected "++package.sha256++", got "++
    env.sha256 data)

def syncSingleBinpkg (io : ClientIo) (binhostUri : String) (package : BuiltPackage) :
    Except Failure Disposition := do
  let path ← (sanitizeBinpkgPath package.binpkgPath).mapError fun _ => invalidBinpkgPath package
  io.createDirAll path
  if ← isPackageCached env io path package then pure .cached
  else
    let data ← io.fetch (packageUrl binhostUri package.binpkgPath)
    if data.length ≠ package.size then throw (sizeMismatch package data)
    if !eqIgnoreAsciiCase (env.sha256 data) package.sha256 then throw (shaMismatch env package data)
    io.rename path
    pure .downloaded

def Accepted (io : ClientIo) (binhostUri : String) (package : BuiltPackage) : Prop :=
  ∃ d, syncSingleBinpkg env io binhostUri package = .ok d

structure Works (io : ClientIo) : Prop where
  createDirAll : ∀ path, io.createDirAll path = .ok ()
  stored : ∀ path, ∃ existing, io.stored path = .ok existing
  rename : ∀ path, io.rename path = .ok ()

variable {env}

theorem accepted_iff {io : ClientIo} (hio : Works io) (binhostUri : String)
    (package : BuiltPackage) : Accepted env io binhostUri package ↔
      ∃ path, sanitizeBinpkgPath package.binpkgPath = .ok path ∧
        ((∃ data, io.stored path = .ok (some data) ∧ verified env package data) ∨
          ∃ data, io.fetch (packageUrl binhostUri package.binpkgPath) = .ok data ∧
            verified env package data) := by
  unfold Accepted syncSingleBinpkg
  cases hpath : sanitizeBinpkgPath package.binpkgPath with
  | error e => simp [Except.mapError,bind,Except.bind]
  | ok path =>
    obtain ⟨existing,hexisting⟩ := hio.stored path
    simp only [Except.mapError,isPackageCached,hio.createDirAll,hexisting,hio.rename,bind,
      Except.bind,Except.map,Except.ok.injEq,exists_eq_left']
    have hcase : (∃ data, existing = some data ∧ verified env package data) ↔
        existing.any (verified env package) := by
      cases existing <;> simp
    rw [hcase]
    cases existing.any (verified env package) with
    | true => simp [pure,Except.pure]
    | false =>
      cases io.fetch (packageUrl binhostUri package.binpkgPath) with
      | error e => simp
      | ok data =>
        by_cases hsize : data.length = package.size
        · by_cases hsha : eqIgnoreAsciiCase (env.sha256 data) package.sha256
          · simp [verified,hsize,hsha,pure,Except.pure]
          · simp [verified,hsize,hsha,throw,throwThe,MonadExceptOf.throw]
        · simp [verified,hsize,throw,throwThe,MonadExceptOf.throw]

end

def listingAt (dir : BinpkgDir) : Option FileName → Option Listing
  | none => some dir.top
  | some category =>
    (dir.subdirectories.find? fun sub => sub.utf8 && sub.name == category).map (·.listing)

def lookup (dir : BinpkgDir) (category : Option FileName) (name : FileName) : Option Bytes :=
  (listingAt dir category).bind fun listing =>
    (listing.files.find? fun file => file.utf8 && file.name == name).bind (·.content)

/-- The binhost answers with the files of the directory. How a name is escaped
in a URL is left to the HTTP libraries on both sides. -/
def Serves (io : ClientIo) (binhostUri : String) (dir : BinpkgDir) : Prop :=
  ∀ category name, match lookup dir category name with
    | some data => io.fetch (packageUrl binhostUri (keyOf (pathOf category name))) = .ok data
    | none => ∃ e, io.fetch (packageUrl binhostUri (keyOf (pathOf category name))) = .error e

theorem find?_of_nodup {α β : Type} [DecidableEq β] {p : α → Bool} {f : α → β} {l : List α}
    (hl : ((l.filter p).map f).Nodup) {a : α} (ha : a ∈ l) (hp : p a) :
    l.find? (fun x => p x && f x == f a) = some a := by
  induction l with
  | nil => cases ha
  | cons b l ih =>
    rw [List.find?_cons]
    by_cases hb : p b
    · rw [List.filter_cons_of_pos hb,List.map_cons,List.nodup_cons] at hl
      rcases List.mem_cons.mp ha with rfl | ha
      · simp [hp]
      · have hne : f b ≠ f a := by
          intro he
          exact hl.1 (he ▸ List.mem_map_of_mem (List.mem_filter.mpr ⟨ha,hp⟩))
        have hbeq : (f b == f a) = false := by simpa using hne
        simpa [hb,hbeq] using ih hl.2 ha
    · rcases List.mem_cons.mp ha with rfl | ha
      · exact absurd hp hb
      · rw [List.filter_cons_of_neg hb] at hl
        simpa [hb] using ih hl ha

theorem mem_files_of_mem_packageFiles {listing : Listing} {file : PackageFile}
    (h : file ∈ packageFiles listing) : file ∈ listing.files := by
  unfold packageFiles at h
  split at h
  · exact (List.mem_filter.mp h).1
  · cases h

variable {dir : BinpkgDir} {s : Scanned}

theorem listingAt_scanned (hs : s ∈ scannedFiles dir) (hutf8 : s.inUtf8) :
    ∃ listing, listingAt dir s.category = some listing ∧ s.file ∈ listing.files := by
  rcases List.mem_append.mp hs with hs | hs
  · obtain ⟨file,hfile,rfl⟩ := List.mem_map.mp hs
    exact ⟨dir.top,rfl,mem_files_of_mem_packageFiles hfile⟩
  · obtain ⟨sub,hsub,hs⟩ := List.mem_flatMap.mp hs
    obtain ⟨file,hfile,rfl⟩ := List.mem_map.mp hs
    have hfind := find?_of_nodup dir.distinct (List.mem_filter.mp hsub).1 hutf8
    refine ⟨sub.listing,?_,mem_files_of_mem_packageFiles hfile⟩
    rw [listingAt,hfind]
    rfl

theorem lookup_scanned (hs : s ∈ scannedFiles dir) (hin : s.inUtf8)
    (hutf8 : s.file.utf8) : lookup dir s.category s.file.name = s.file.content := by
  obtain ⟨listing,hlisting,hfile⟩ := listingAt_scanned hs hin
  rw [lookup,hlisting,Option.bind_some,find?_of_nodup listing.distinct hfile hutf8,Option.bind_some]

theorem packageUrl_path (binhostUri : String) {path : List FileName} (h : path ≠ []) :
    packageUrl binhostUri (keyOf path) =
      String.ofList (trimEndSlashes binhostUri.toList)++"/"++keyOf path := by
  have hdrop : (keyOf path).toList.dropWhile (· == '/') = (keyOf path).toList := by
    have habs := isAbsolute_keyOf h
    cases hkey : (keyOf path).toList with
    | nil => rfl
    | cons c cs =>
      rw [isAbsolute,hkey,List.head?_cons,beq_eq_false_iff_ne] at habs
      have hc : (c == '/') = false := by simpa using habs
      rw [List.dropWhile_cons,if_neg (by simp [hc])]
  rw [packageUrl,hdrop,String.ofList_toList]

def notFound (url : String) : Failure := .bail ("Server returned 404 Not Found for "++url)

def newClient (binhostUri : String) (dir : BinpkgDir) : ClientIo where
  createDirAll := fun _ => .ok ()
  stored := fun _ => .ok none
  fetch := fun url =>
    let found := (stripStart url (String.ofList (trimEndSlashes binhostUri.toList)++"/")).bind
      fun path => match sanitizeBinpkgPath path with
        | .ok [name] => lookup dir none name
        | .ok [category,name] => lookup dir (some category) name
        | _ => none
    match found with
    | some data => .ok data
    | none => .error (notFound url)
  rename := fun _ => .ok ()

theorem stripStart_append (front rest : String) : stripStart (front++rest) front = some rest := by
  rw [stripStart,String.toList_append,List.isPrefixOf?_eq_some_iff_append_eq.mpr rfl,
    Option.map_some,String.ofList_toList]

theorem newClient_fetch (binhostUri : String) (dir : BinpkgDir) (category : Option FileName)
    (name : FileName) :
    (newClient binhostUri dir).fetch (packageUrl binhostUri (keyOf (pathOf category name))) =
      match lookup dir category name with
      | some data => .ok data
      | none => .error (notFound (packageUrl binhostUri (keyOf (pathOf category name)))) := by
  have hne : pathOf category name ≠ [] := by simp [pathOf]
  have hpath := sanitizeBinpkgPath_keyOf hne
  have hstrip : stripStart (packageUrl binhostUri (keyOf (pathOf category name)))
      (String.ofList (trimEndSlashes binhostUri.toList)++"/") =
        some (keyOf (pathOf category name)) := by
    rw [packageUrl_path _ hne]
    exact stripStart_append _ _
  simp only [newClient,hstrip,Option.bind_some,hpath]
  cases category with
  | none => rfl
  | some category => rfl

theorem newClient_works (binhostUri : String) (dir : BinpkgDir) :
    Works (newClient binhostUri dir) :=
  ⟨fun _ => rfl,fun _ => ⟨none,rfl⟩,fun _ => rfl⟩

theorem newClient_serves (binhostUri : String) (dir : BinpkgDir) :
    Serves (newClient binhostUri dir) binhostUri dir := by
  intro category name
  have hfetch := newClient_fetch binhostUri dir category name
  cases hl : lookup dir category name with
  | some data =>
    rw [hl] at hfetch
    exact hfetch
  | none =>
    rw [hl] at hfetch
    exact ⟨_,hfetch⟩

variable (env : Codecs)

/-- A result that lists packages lists those of a scan, and a file without a
UTF-8 name has a double with one. -/
structure Verifiable (dir : BinpkgDir) (atoms built : List String) : Prop where
  scanned : fallsBack env dir atoms built → built = []
  doubles : fallsBack env dir atoms built = false → ∀ s ∈ scannedFiles dir, ∀ found,
    metaOf env s = some found → isWanted atoms built found →
    (s.inUtf8 && s.file.utf8) = false →
      ∃ data, lookup dir s.category s.file.name = some data ∧
        verified env (toBuiltPackage found) data

variable {env} {built : List String} {s : Scanned} {found : PackageMeta} {io : ClientIo}
  {binhostUri : String} {atoms : List String}

theorem not_accepted_event (hio : Works io) {p : BuiltPackage} (h : p ∈ packagesFromEvents built) :
    ¬Accepted env io binhostUri p := by
  obtain ⟨atom,-,rfl⟩ := List.mem_map.mp h
  have hsha : ∀ data, eqIgnoreAsciiCase (env.sha256 data) "" = false := by
    intro data
    have hlen : (env.sha256 data).toList.length = 64 := by
      have hvalid := env.sha256_valid data
      rw [validDigest,Bool.and_eq_true,beq_iff_eq] at hvalid
      exact hvalid.1
    rw [eqIgnoreAsciiCase,beq_eq_false_iff_ne]
    intro he
    have hlist := congrArg (fun text => text.toList.length) he
    simp [toAsciiLowercase,hlen] at hlist
  rw [accepted_iff hio]
  rintro ⟨path,-,⟨data,-,hdata⟩ | ⟨data,-,hdata⟩⟩
  · simp [verified,hsha] at hdata
  · simp [verified,hsha] at hdata

theorem accepted_scanned_iff (hio : Works io) (binhostUri : String)
    (h : metaOf env s = some found) :
    Accepted env io binhostUri (toBuiltPackage found) ↔
      (∃ data, io.stored (pathOf s.category s.file.name).reverse = .ok (some data) ∧
        verified env (toBuiltPackage found) data) ∨
      ∃ data, io.fetch (packageUrl binhostUri (keyOf (pathOf s.category s.file.name))) = .ok data ∧
        verified env (toBuiltPackage found) data := by
  obtain ⟨data,-,hpath,-,-⟩ := metaOf_eq_some h
  have hne : pathOf s.category s.file.name ≠ [] := by simp [pathOf]
  have hsan : sanitizeBinpkgPath (toBuiltPackage found).binpkgPath =
      .ok (pathOf s.category s.file.name).reverse := by
    rw [← sanitizeBinpkgPath_keyOf hne,← hpath]
    rfl
  rw [accepted_iff hio,hsan]
  have hurl : (toBuiltPackage found).binpkgPath = keyOf (pathOf s.category s.file.name) := hpath
  rw [hurl]
  simp

theorem verified_content (h : metaOf env s = some found) {data : Bytes}
    (hdata : s.file.content = some data) : verified env (toBuiltPackage found) data := by
  obtain ⟨data',hdata',-,hsize,hsha⟩ := metaOf_eq_some h
  rw [hdata,Option.some.injEq] at hdata'
  subst hdata'
  simp [verified,toBuiltPackage,hsize,hsha,eqIgnoreAsciiCase]

theorem verifiable_of_newClient
    (h : ∀ p ∈ reportedPackages (scanFor env dir atoms built) built,
      Accepted env (newClient binhostUri dir) binhostUri p) : Verifiable env dir atoms built := by
  have hworks := newClient_works binhostUri dir
  rw [reportedPackages_eq] at h
  constructor
  · intro hback
    rw [if_pos hback] at h
    cases built with
    | nil => rfl
    | cons atom built =>
      have hmem : ⟨atom,s!"{atom}.gpkg.tar","",0⟩ ∈ packagesFromEvents (atom::built) := by
        simp [packagesFromEvents]
      exact absurd (h _ hmem) (not_accepted_event hworks hmem)
  · intro hback s hs found hfound hwanted _
    rw [if_neg (by simp [hback])] at h
    have hmem : toBuiltPackage found ∈ (wantedFiles env dir atoms built).map toBuiltPackage :=
      List.mem_map_of_mem (mem_wantedFiles.mpr ⟨⟨s,hs,hfound⟩,hwanted⟩)
    rcases (accepted_scanned_iff hworks binhostUri hfound).mp (h _ hmem) with
      ⟨data,hstored,-⟩ | ⟨data,hfetch,hdata⟩
    · cases hstored
    · rw [newClient_fetch] at hfetch
      cases hl : lookup dir s.category s.file.name with
      | none =>
        rw [hl] at hfetch
        cases hfetch
      | some served =>
        rw [hl] at hfetch
        cases hfetch
        exact ⟨_,rfl,hdata⟩

theorem lookup_of_verifiable (h : Verifiable env dir atoms built)
    (hback : fallsBack env dir atoms built = false) (hs : s ∈ scannedFiles dir)
    (hmeta : metaOf env s = some found) (hwanted : isWanted atoms built found) :
    ∃ data, lookup dir s.category s.file.name = some data ∧
      verified env (toBuiltPackage found) data := by
  cases hutf8 : s.inUtf8 && s.file.utf8 with
  | false => exact h.doubles hback s hs found hmeta hwanted hutf8
  | true =>
    rw [Bool.and_eq_true] at hutf8
    obtain ⟨data,hdata,-⟩ := metaOf_eq_some hmeta
    exact ⟨data,(lookup_scanned hs hutf8.1 hutf8.2).trans hdata,verified_content hmeta hdata⟩

/-- Every client accepts all packages of a result of the directory it downloads
from exactly when the result is verifiable. -/
theorem reported_packages_accepted_iff (env : Codecs) (dir : BinpkgDir)
    (atoms built : List String) (binhostUri : String) :
    (∀ io, Works io → Serves io binhostUri dir →
        ∀ p ∈ reportedPackages (scanFor env dir atoms built) built,
          Accepted env io binhostUri p) ↔
      Verifiable env dir atoms built := by
  constructor
  · intro h
    exact verifiable_of_newClient
      (h _ (newClient_works binhostUri dir) (newClient_serves binhostUri dir))
  · intro h io hio hserves p hp
    rw [reportedPackages_eq] at hp
    cases hback : fallsBack env dir atoms built with
    | true =>
      rw [if_pos hback,h.scanned hback] at hp
      cases hp
    | false =>
      rw [if_neg (by simp [hback])] at hp
      obtain ⟨found,hfound,rfl⟩ := List.mem_map.mp hp
      obtain ⟨⟨s,hs,hmeta⟩,hwanted⟩ := mem_wantedFiles.mp hfound
      obtain ⟨data,hdata,hverified⟩ := lookup_of_verifiable h hback hs hmeta hwanted
      have hfetch := hserves s.category s.file.name
      rw [hdata] at hfetch
      exact (accepted_scanned_iff hio binhostUri hmeta).mpr (.inr ⟨data,hfetch,hverified⟩)

def devLibsCategory : FileName := ⟨"dev-libs",Eq.refl true⟩

def opensslPackage : PackageFile :=
  ⟨⟨"openssl-3.0.13-r2.gpkg.tar",Eq.refl true⟩,true,some [97],none⟩

def opensslDir : BinpkgDir where
  top := ⟨true,true,[],by decide⟩
  subdirectories := [⟨devLibsCategory,true,⟨true,true,[opensslPackage],by decide⟩⟩]
  distinct := by decide

def opensslReport : BuiltPackage :=
  ⟨"dev-libs/openssl-3.0.13-r2","dev-libs/openssl-3.0.13-r2.gpkg.tar",plainCodecs.sha256 [97],1⟩

theorem openssl_reported :
    reportedPackages (scanFor plainCodecs opensslDir ["dev-libs/openssl"] []) [] =
      [opensslReport] := by
  decide

theorem openssl_verifiable : Verifiable plainCodecs opensslDir ["dev-libs/openssl"] [] := by
  have hutf8 : ∀ s ∈ scannedFiles opensslDir, (s.inUtf8 && s.file.utf8) := by
    decide
  constructor
  · intro _
    rfl
  · intro _ s hs found _ _ hno
    rw [hutf8 s hs] at hno
    cases hno

theorem openssl_accepted :
    Accepted plainCodecs (newClient "http://binhost" opensslDir) "http://binhost"
      opensslReport := by
  have hall := (reported_packages_accepted_iff plainCodecs opensslDir ["dev-libs/openssl"] []
    "http://binhost").mpr openssl_verifiable _ (newClient_works _ _) (newClient_serves _ _)
  rw [openssl_reported] at hall
  exact hall _ (List.mem_singleton.mpr rfl)

def headersPackage : PackageFile :=
  ⟨⟨"os-headers-0-r2.gpkg.tar",Eq.refl true⟩,true,some [97],none⟩

def virtualDir : BinpkgDir where
  top := ⟨true,true,[],by decide⟩
  subdirectories := [⟨⟨"virtual",Eq.refl true⟩,true,⟨true,true,[headersPackage],by decide⟩⟩]
  distinct := by decide

/-- The scan passes over the category `virtual`, so its package is reported as
the event has it, without a hash, and rejected. -/
theorem virtual_package_rejected :
    reportedPackages
        (scanFor plainCodecs virtualDir ["virtual/os-headers"] ["virtual/os-headers-0-r2"])
        ["virtual/os-headers-0-r2"] =
      [⟨"virtual/os-headers-0-r2","virtual/os-headers-0-r2.gpkg.tar","",0⟩] ∧
    ¬Accepted plainCodecs (newClient "http://binhost" virtualDir) "http://binhost"
      ⟨"virtual/os-headers-0-r2","virtual/os-headers-0-r2.gpkg.tar","",0⟩ := by
  refine ⟨by decide,?_⟩
  have hmem : (⟨"virtual/os-headers-0-r2","virtual/os-headers-0-r2.gpkg.tar","",0⟩ : BuiltPackage) ∈
      packagesFromEvents ["virtual/os-headers-0-r2"] := by decide
  exact not_accepted_event (newClient_works _ _) hmem

end Remerge.BinpkgSync
