import Remerge.BinpkgRepo

/-!
# Whose packages a result names

The containers of all clients write into one directory. A file is the work of
the container that wrote it last; the scan sees only names. A result therefore names
only packages of its own build if that build has replaced every earlier file with a
wanted name, and no other container wrote one of those last.
-/

set_option autoImplicit false

namespace Remerge.BuildProvenance
open RustText SnapshotTypes FileNames StagingPaths ServerState ServerTasks BinpkgRepo

section

structure Write where
  workorder : WorkorderId
  category : Option FileName
  name : FileName
  content : Bytes

def Write.file (w : Write) : PackageFile := ⟨w.name,true,some w.content,some w.workorder⟩

def Write.shown (w : Write) : Scanned := ⟨w.category,true,w.file⟩

def Write.intoListing (w : Write) (listing : Listing) : Listing where
  opens := listing.opens
  whole := listing.whole
  files := w.file::listing.files.filter fun file => !(file.utf8 && file.name == w.name)
  distinct := by
    rw [List.filter_cons_of_pos rfl,List.map_cons,List.nodup_cons]
    constructor
    · intro hmem
      obtain ⟨file,hfile,hname⟩ := List.mem_map.mp hmem
      obtain ⟨hrest,hutf8⟩ := List.mem_filter.mp hfile
      have hother := (List.mem_filter.mp hrest).2
      rw [hutf8,show file.name = w.name from hname] at hother
      simp at hother
    · exact listing.distinct.sublist ((List.filter_sublist.filter _).map _)

def newSubdirectory (w : Write) (category : FileName) : Subdirectory :=
  ⟨category,true,⟨true,true,[w.file],by simp [Write.file]⟩⟩

def Write.intoSubdirectories (w : Write) (category : FileName) :
    List Subdirectory → List Subdirectory
  | [] => [newSubdirectory w category]
  | sub::rest =>
    if sub.utf8 && sub.name == category then
      ⟨sub.name,sub.utf8,w.intoListing sub.listing⟩::rest
    else sub::w.intoSubdirectories category rest

def utf8Names (subs : List Subdirectory) : List FileName := (subs.filter (·.utf8)).map (·.name)

theorem utf8Names_cons (sub : Subdirectory) (subs : List Subdirectory) :
    utf8Names (sub::subs) = if sub.utf8 then sub.name::utf8Names subs else utf8Names subs := by
  unfold utf8Names
  cases hutf8 : sub.utf8 with
  | false => simp [hutf8]
  | true => simp [hutf8]

theorem utf8Names_intoSubdirectories (w : Write) (category : FileName)
    (subs : List Subdirectory) :
    utf8Names (w.intoSubdirectories category subs) =
      if category ∈ utf8Names subs then utf8Names subs else utf8Names subs++[category] := by
  induction subs with
  | nil => rfl
  | cons sub subs ih =>
    rw [Write.intoSubdirectories]
    cases hutf8 : sub.utf8 with
    | false => simpa [utf8Names_cons,hutf8] using ih
    | true =>
      by_cases hname : sub.name = category
      · simp [utf8Names_cons,hutf8,hname]
      · have hne : category ≠ sub.name := Ne.symm hname
        simp only [Bool.true_and,beq_iff_eq,hname,if_false,utf8Names_cons,hutf8,if_true,ih,
          List.mem_cons,hne,false_or]
        split
        · rfl
        · rfl

def writePackage (w : Write) (dir : BinpkgDir) : BinpkgDir :=
  match w.category with
  | none => ⟨w.intoListing dir.top,dir.subdirectories,dir.distinct⟩
  | some category =>
    ⟨dir.top,w.intoSubdirectories category dir.subdirectories,by
      have hnames := utf8Names_intoSubdirectories w category dir.subdirectories
      unfold utf8Names at hnames
      rw [hnames]
      split
      · exact dir.distinct
      · next hnew => exact dir.distinct.append (by simp) (by simpa using hnew)⟩

def written : List Write → BinpkgDir → BinpkgDir
  | [], dir => dir
  | w::ws, dir => written ws (writePackage w dir)

def shownIn (subs : List Subdirectory) : List Scanned :=
  subs.flatMap fun sub => (packageFiles sub.listing).map (⟨some sub.name,sub.utf8,·⟩)

/-- All package files, also those in subdirectories the scan passes over. -/
def shownFiles (dir : BinpkgDir) : List Scanned :=
  (packageFiles dir.top).map (⟨none,true,·⟩)++shownIn dir.subdirectories

variable {listing : Listing} {file : PackageFile} {dir : BinpkgDir}

theorem mem_packageFiles :
    file ∈ packageFiles listing ↔
      listing.opens ∧ file ∈ listing.files ∧ isPackage file.name.text.toList := by
  unfold packageFiles
  cases listing.opens with
  | false => simp
  | true => simp

variable {w : Write} {s : Scanned}

/-- The write goes to where the file is. A name that is not UTF-8 is never written. -/
def Write.Replaces (w : Write) (s : Scanned) : Prop :=
  s.category = w.category ∧ s.inUtf8 ∧ s.file.name = w.name ∧ s.file.utf8

def OpensIn (subs : List Subdirectory) (category : FileName) : Prop :=
  ∀ sub ∈ subs, sub.utf8 → sub.name = category → sub.listing.opens

def Opens (dir : BinpkgDir) : Option FileName → Prop
  | none => dir.top.opens
  | some category => OpensIn dir.subdirectories category

/-- The file that is written is a package, in a directory that can be listed. -/
def Shows (dir : BinpkgDir) (w : Write) : Prop :=
  isPackage w.name.text.toList ∧ Opens dir w.category

theorem mem_intoListing :
    file ∈ packageFiles (w.intoListing listing) ↔
      (listing.opens ∧ isPackage w.name.text.toList ∧ file = w.file) ∨
        (file ∈ packageFiles listing ∧ ¬(file.name = w.name ∧ file.utf8)) := by
  simp only [mem_packageFiles,Write.intoListing,List.mem_cons,List.mem_filter]
  constructor
  · rintro ⟨hopens,rfl | ⟨hfile,hother⟩,hpackage⟩
    · exact .inl ⟨hopens,hpackage,rfl⟩
    · refine .inr ⟨⟨hopens,hfile,hpackage⟩,fun hsame => ?_⟩
      simp [hsame.1,hsame.2] at hother
  · rintro (⟨hopens,hpackage,rfl⟩ | ⟨⟨hopens,hfile,hpackage⟩,hother⟩)
    · exact ⟨hopens,.inl rfl,hpackage⟩
    · refine ⟨hopens,.inr ⟨hfile,?_⟩,hpackage⟩
      by_contra hsame
      simp only [Bool.not_eq_true,Bool.not_eq_false',Bool.and_eq_true,beq_iff_eq] at hsame
      exact hother ⟨hsame.2,hsame.1⟩

theorem mem_newSubdirectory {category : FileName} :
    file ∈ packageFiles (newSubdirectory w category).listing ↔
      isPackage w.name.text.toList ∧ file = w.file := by
  rw [mem_packageFiles]
  simp only [newSubdirectory,List.mem_singleton,true_and]
  constructor
  · rintro ⟨rfl,hp⟩
    exact ⟨hp,rfl⟩
  · rintro ⟨hp,rfl⟩
    exact ⟨rfl,hp⟩

theorem mem_shownIn_cons {sub : Subdirectory} {subs : List Subdirectory} :
    s ∈ shownIn (sub::subs) ↔
      (∃ file ∈ packageFiles sub.listing, s = ⟨some sub.name,sub.utf8,file⟩) ∨ s ∈ shownIn subs := by
  simp only [shownIn,List.flatMap_cons,List.mem_append,List.mem_map,eq_comm]

theorem mem_utf8Names {sub : Subdirectory} {subs : List Subdirectory} (h : sub ∈ subs)
    (hutf8 : sub.utf8) : sub.name ∈ utf8Names subs :=
  List.mem_map_of_mem (List.mem_filter.mpr ⟨h,hutf8⟩)

theorem opensIn_own {sub : Subdirectory} {subs : List Subdirectory} (hutf8 : sub.utf8)
    (h : sub.name ∉ utf8Names subs) : OpensIn (sub::subs) sub.name ↔ sub.listing.opens := by
  refine ⟨fun ho => ho sub List.mem_cons_self hutf8 rfl,fun ho => ?_⟩
  refine List.forall_mem_cons.mpr ⟨fun _ _ => ho,fun other hm hu hn => ?_⟩
  exact absurd (hn ▸ mem_utf8Names hm hu) h

theorem category_of_mem_shownIn {subs : List Subdirectory} {category : FileName}
    (h : s ∈ shownIn subs) (hc : s.category = some category) (hutf8 : s.inUtf8) :
    category ∈ utf8Names subs := by
  obtain ⟨sub,hsub,hs⟩ := List.mem_flatMap.mp h
  obtain ⟨file,-,rfl⟩ := List.mem_map.mp hs
  cases hc
  exact mem_utf8Names hsub hutf8

theorem mem_shownIn {category : FileName} (hw : w.category = some category)
    {subs : List Subdirectory} (hd : (utf8Names subs).Nodup) :
    s ∈ shownIn (w.intoSubdirectories category subs) ↔
      (isPackage w.name.text.toList ∧ OpensIn subs category ∧ s = w.shown) ∨
        (s ∈ shownIn subs ∧ ¬w.Replaces s) := by
  have hshown : w.shown = ⟨some category,true,w.file⟩ := by rw [Write.shown,hw]
  induction subs with
  | nil =>
    have hnone : s ∉ shownIn [] := List.not_mem_nil
    rw [Write.intoSubdirectories,mem_shownIn_cons,hshown]
    simp only [mem_newSubdirectory,hnone,or_false,false_and]
    constructor
    · rintro ⟨file,⟨hp,rfl⟩,rfl⟩
      exact ⟨hp,fun _ h => (List.not_mem_nil h).elim,rfl⟩
    · rintro ⟨hp,-,rfl⟩
      exact ⟨w.file,⟨hp,rfl⟩,rfl⟩
  | cons sub subs ih =>
    rw [Write.intoSubdirectories]
    rw [utf8Names_cons] at hd
    split
    · next hsub =>
      simp only [Bool.and_eq_true,beq_iff_eq] at hsub
      obtain ⟨hutf8,rfl⟩ := hsub
      rw [if_pos hutf8,List.nodup_cons] at hd
      have hrest : s ∈ shownIn subs → ¬w.Replaces s := fun h hr =>
        hd.1 (category_of_mem_shownIn h (hr.1.trans hw) hr.2.1)
      rw [mem_shownIn_cons,mem_shownIn_cons,opensIn_own hutf8 hd.1,hshown]
      simp only [mem_intoListing,hutf8]
      constructor
      · rintro (⟨file,⟨ho,hp,rfl⟩ | ⟨hfile,hother⟩,rfl⟩ | h)
        · exact .inl ⟨hp,ho,rfl⟩
        · exact .inr ⟨.inl ⟨file,hfile,rfl⟩,fun hr => hother hr.2.2⟩
        · exact .inr ⟨.inr h,hrest h⟩
      · rintro (⟨hp,ho,rfl⟩ | ⟨⟨file,hfile,rfl⟩ | h,hother⟩)
        · exact .inl ⟨w.file,.inl ⟨ho,hp,rfl⟩,rfl⟩
        · exact .inl ⟨file,.inr ⟨hfile,fun hr => hother ⟨hw.symm,rfl,hr⟩⟩,rfl⟩
        · exact .inr h
    · next hsub =>
      simp only [Bool.and_eq_true,beq_iff_eq] at hsub
      have hd' : (utf8Names subs).Nodup := by
        split at hd
        · exact (List.nodup_cons.mp hd).2
        · exact hd
      have hopens : OpensIn (sub::subs) category ↔ OpensIn subs category :=
        List.forall_mem_cons.trans (and_iff_right fun hu hn => absurd ⟨hu,hn⟩ hsub)
      have hfirst : (∃ file ∈ packageFiles sub.listing, s = ⟨some sub.name,sub.utf8,file⟩) →
          ¬w.Replaces s := by
        rintro ⟨file,-,rfl⟩ hr
        exact hsub ⟨hr.2.1,Option.some.inj (hr.1.trans hw)⟩
      rw [mem_shownIn_cons,mem_shownIn_cons,hopens,or_congr_right (ih hd'),or_left_comm,
        or_and_right,and_iff_left_of_imp hfirst]

theorem mem_shownFiles_write :
    s ∈ shownFiles (writePackage w dir) ↔
      (Shows dir w ∧ s = w.shown) ∨ (s ∈ shownFiles dir ∧ ¬w.Replaces s) := by
  unfold writePackage shownFiles Shows
  cases hc : w.category with
  | none =>
    have hshown : w.shown = ⟨none,true,w.file⟩ := by rw [Write.shown,hc]
    have hsubs : s ∈ shownIn dir.subdirectories → ¬w.Replaces s := by
      intro h hr
      obtain ⟨sub,-,hs⟩ := List.mem_flatMap.mp h
      obtain ⟨file,-,rfl⟩ := List.mem_map.mp hs
      cases hr.1.trans hc
    simp only [List.mem_append,List.mem_map,mem_intoListing,hshown,Opens]
    constructor
    · rintro (⟨file,⟨ho,hp,rfl⟩ | ⟨hfile,hother⟩,rfl⟩ | h)
      · exact .inl ⟨⟨hp,ho⟩,rfl⟩
      · exact .inr ⟨.inl ⟨file,hfile,rfl⟩,fun hr => hother hr.2.2⟩
      · exact .inr ⟨.inr h,hsubs h⟩
    · rintro (⟨⟨hp,ho⟩,rfl⟩ | ⟨⟨file,hfile,rfl⟩ | h,hother⟩)
      · exact .inl ⟨w.file,.inl ⟨ho,hp,rfl⟩,rfl⟩
      · exact .inl ⟨file,.inr ⟨hfile,fun hr => hother ⟨hc.symm,rfl,hr⟩⟩,rfl⟩
      · exact .inr h
  | some category =>
    have htop : s ∈ (packageFiles dir.top).map (⟨none,true,·⟩) → ¬w.Replaces s := by
      intro h hr
      obtain ⟨file,-,rfl⟩ := List.mem_map.mp h
      cases hr.1.trans hc
    simp only [List.mem_append,mem_shownIn hc dir.distinct,Opens,and_assoc]
    tauto

theorem opensIn_into (w : Write) (category category' : FileName) (subs : List Subdirectory) :
    OpensIn (w.intoSubdirectories category subs) category' ↔ OpensIn subs category' := by
  induction subs with
  | nil =>
    refine iff_of_true ?_ fun _ h => (List.not_mem_nil h).elim
    exact List.forall_mem_singleton.mpr fun _ _ => rfl
  | cons sub subs ih =>
    unfold OpensIn at ih ⊢
    rw [Write.intoSubdirectories]
    split
    · rw [List.forall_mem_cons,List.forall_mem_cons]
      rfl
    · rw [List.forall_mem_cons,List.forall_mem_cons,ih]

theorem shows_writePackage {v : Write} : Shows (writePackage w dir) v ↔ Shows dir v := by
  unfold Shows writePackage
  cases w.category with
  | none => cases v.category <;> rfl
  | some category =>
    cases v.category with
    | none => rfl
    | some category' => exact and_congr_right fun _ => opensIn_into w category category' _

theorem scannable_writePackage : scannable (writePackage w dir) = scannable dir := by
  have hinto : ∀ category (subs : List Subdirectory),
      ((w.intoSubdirectories category subs).filter fun sub => isCategoryDir sub.name).all
          (fun sub => !sub.listing.opens || sub.listing.whole) =
        (subs.filter fun sub => isCategoryDir sub.name).all
          fun sub => !sub.listing.opens || sub.listing.whole := by
    intro category subs
    induction subs with
    | nil => cases h : isCategoryDir category <;> simp [Write.intoSubdirectories,newSubdirectory,h]
    | cons sub subs ih =>
      rw [Write.intoSubdirectories]
      split
      · cases h : isCategoryDir sub.name <;> simp [h,Write.intoListing]
      · cases h : isCategoryDir sub.name <;> simp only [List.filter_cons,h] <;> simp [ih]
  unfold scannable writePackage categoryDirs
  cases w.category with
  | none => rfl
  | some category => rw [hinto]

/-- Nothing is written to its place after it. -/
def Lasts (ws : List Write) (w : Write) : Prop :=
  ∃ before after, ws = before++w::after ∧ ∀ v ∈ after, ¬v.Replaces w.shown

variable {ws : List Write}

theorem lasts_cons {v : Write} :
    Lasts (v::ws) w ↔ (w = v ∧ ∀ u ∈ ws, ¬u.Replaces v.shown) ∨ Lasts ws w := by
  constructor
  · rintro ⟨before,after,he,hafter⟩
    cases before with
    | nil =>
      cases he
      exact .inl ⟨rfl,hafter⟩
    | cons u before =>
      cases he
      exact .inr ⟨before,after,rfl,hafter⟩
  · rintro (⟨rfl,hafter⟩ | ⟨before,after,rfl,hafter⟩)
    · exact ⟨[],ws,rfl,hafter⟩
    · exact ⟨v::before,after,rfl,hafter⟩

/-- The directory shows the old files nobody has written to, and the last writes. -/
theorem mem_shownFiles_written :
    s ∈ shownFiles (written ws dir) ↔ (s ∈ shownFiles dir ∧ ∀ w ∈ ws, ¬w.Replaces s) ∨
      ∃ w, Lasts ws w ∧ Shows dir w ∧ s = w.shown := by
  induction ws generalizing dir with
  | nil => simp [written,Lasts]
  | cons v ws ih =>
    rw [written,ih,mem_shownFiles_write]
    simp only [List.forall_mem_cons,shows_writePackage,lasts_cons]
    constructor
    · rintro (⟨⟨hv,rfl⟩ | ⟨hs,hv⟩,hws⟩ | ⟨w,hw⟩)
      · exact .inr ⟨v,.inl ⟨rfl,hws⟩,hv,rfl⟩
      · exact .inl ⟨hs,hv,hws⟩
      · exact .inr ⟨w,.inr hw.1,hw.2⟩
    · rintro (⟨hs,hv,hws⟩ | ⟨w,⟨rfl,hws⟩ | hw,hshows,rfl⟩)
      · exact .inl ⟨.inr ⟨hs,hv⟩,hws⟩
      · exact .inl ⟨.inl ⟨hshows,rfl⟩,hws⟩
      · exact .inr ⟨w,hw,hshows,rfl⟩

theorem scannable_written : scannable (written ws dir) = scannable dir := by
  induction ws generalizing dir with
  | nil => rfl
  | cons w ws ih => rw [written,ih,scannable_writePackage]

end

variable (env : Codecs)

def shownPath (s : Scanned) : String := keyOf (pathOf s.category s.file.name)

def readableAt (dir : BinpkgDir) (path : String) : List Scanned :=
  (shownFiles dir).filter fun s => shownPath s == path && s.file.content.isSome

def Own (id : WorkorderId) (dir : BinpkgDir) (path : String) : Prop :=
  readableAt dir path ≠ [] ∧ ∀ s ∈ readableAt dir path, s.file.madeBy = some id

def Wants (atoms built : List String) (s : Scanned) : Prop :=
  s.category.all isCategoryDir ∧ ∃ found, metaOf env s = some found ∧ isWanted atoms built found

/-- The container of the workorder wrote the path last, and replaced what was there. -/
structure OwnAt (id : WorkorderId) (prior : BinpkgDir) (ws : List Write) (path : String) :
    Prop where
  written : ∃ w, Lasts ws w ∧ Shows prior w ∧ shownPath w.shown = path
  own : ∀ w, Lasts ws w → Shows prior w → shownPath w.shown = path → w.workorder = id
  replaced : ∀ s ∈ readableAt prior path, ∃ w ∈ ws, w.Replaces s

/-- Every earlier file with a wanted name is replaced, and the last writes with one are the
workorder's. If there are none, or the scan fails, the packages of the events are. -/
structure OnlyOwn (id : WorkorderId) (prior : BinpkgDir) (ws : List Write)
    (atoms built : List String) : Prop where
  replaced : scannable prior → ∀ s ∈ shownFiles prior, Wants env atoms built s →
    ∃ w ∈ ws, w.Replaces s
  own : scannable prior → ∀ w, Lasts ws w → Shows prior w → Wants env atoms built w.shown →
    w.workorder = id
  events : (scannable prior → ∀ w, Lasts ws w → Shows prior w → ¬Wants env atoms built w.shown) →
    ∀ atom ∈ built, OwnAt id prior ws s!"{atom}.gpkg.tar"

variable {env} {dir : BinpkgDir} {s : Scanned} {atoms built : List String}

theorem mem_scannedFiles :
    s ∈ scannedFiles dir ↔ s ∈ shownFiles dir ∧ s.category.all isCategoryDir := by
  unfold scannedFiles shownFiles shownIn categoryDirs
  simp only [List.mem_append,List.mem_map,List.mem_flatMap,List.mem_filter]
  constructor
  · rintro (⟨file,hfile,rfl⟩ | ⟨sub,⟨hsub,hcategory⟩,file,hfile,rfl⟩)
    · exact ⟨.inl ⟨file,hfile,rfl⟩,rfl⟩
    · exact ⟨.inr ⟨sub,hsub,file,hfile,rfl⟩,hcategory⟩
  · rintro ⟨⟨file,hfile,rfl⟩ | ⟨sub,hsub,file,hfile,rfl⟩,hcategory⟩
    · exact .inl ⟨file,hfile,rfl⟩
    · exact .inr ⟨sub,⟨hsub,hcategory⟩,file,hfile,rfl⟩

variable (env) in
theorem mem_readableAt {path : String} :
    s ∈ readableAt dir path ↔ s ∈ shownFiles dir ∧ shownPath s = path ∧
      ∃ found, metaOf env s = some found := by
  have hsome : (∃ found, metaOf env s = some found) ↔ s.file.content.isSome := by
    rw [← Option.isSome_iff_exists,metaOf,readPackageMeta,Option.isSome_map]
  rw [readableAt,List.mem_filter,Bool.and_eq_true,beq_iff_eq,hsome]

variable {s' : Scanned} {found : PackageMeta} {id : WorkorderId}

theorem shownPath_inj (h : shownPath s = shownPath s') :
    s.category = s'.category ∧ s.file.name = s'.file.name := by
  have hpath := keyOf_injective h
  unfold pathOf at hpath
  obtain ⟨hname,hcategory⟩ := List.cons.inj hpath
  refine ⟨?_,hname⟩
  cases hs : s.category <;> cases hs' : s'.category <;> simp_all

theorem isWanted_congr {found' : PackageMeta} (h : metaOf env s = some found)
    (h' : metaOf env s' = some found') (hpath : shownPath s = shownPath s') :
    isWanted atoms built found = isWanted atoms built found' := by
  obtain ⟨hcategory,hname⟩ := shownPath_inj hpath
  obtain ⟨data,-,rfl⟩ := Option.map_eq_some_iff.mp h
  obtain ⟨data',-,rfl⟩ := Option.map_eq_some_iff.mp h'
  unfold isWanted
  rw [hcategory,hname]

theorem own_iff {prior : BinpkgDir} {ws : List Write} {path : String}
    (hprior : ∀ s ∈ shownFiles prior, s.file.madeBy ≠ some id) :
    Own id (written ws prior) path ↔ OwnAt id prior ws path := by
  have hread : ∀ w : Write, shownPath w.shown = path → Lasts ws w → Shows prior w →
      w.shown ∈ readableAt (written ws prior) path := by
    intro w hpath hlast hshows
    refine List.mem_filter.mpr ⟨mem_shownFiles_written.mpr (.inr ⟨w,hlast,hshows,rfl⟩),?_⟩
    rw [hpath,beq_self_eq_true]
    rfl
  constructor
  · rintro ⟨hne,hall⟩
    have hold : ∀ s ∈ readableAt prior path, ∃ w ∈ ws, w.Replaces s := by
      intro s hs
      obtain ⟨hshown,hpath⟩ := List.mem_filter.mp hs
      by_contra hkept
      have hkept' : ∀ w ∈ ws, ¬w.Replaces s := fun w hw hr => hkept ⟨w,hw,hr⟩
      exact hprior s hshown (hall s (List.mem_filter.mpr
        ⟨mem_shownFiles_written.mpr (.inl ⟨hshown,hkept'⟩),hpath⟩))
    refine ⟨?_,fun w hlast hshows hpath => ?_,hold⟩
    · obtain ⟨s,hs⟩ := List.exists_mem_of_ne_nil _ hne
      obtain ⟨hshown,hpath⟩ := List.mem_filter.mp hs
      rcases mem_shownFiles_written.mp hshown with ⟨hbefore,hkept⟩ | ⟨w,hlast,hshows,rfl⟩
      · obtain ⟨w,hw,hr⟩ := hold s (List.mem_filter.mpr ⟨hbefore,hpath⟩)
        exact absurd hr (hkept w hw)
      · exact ⟨w,hlast,hshows,eq_of_beq (Bool.and_eq_true_iff.mp hpath).1⟩
    · exact Option.some.inj (hall _ (hread w hpath hlast hshows))
  · rintro ⟨⟨w,hlast,hshows,hpath⟩,hown,hold⟩
    refine ⟨List.ne_nil_of_mem (hread w hpath hlast hshows),fun s hs => ?_⟩
    obtain ⟨hshown,hpath'⟩ := List.mem_filter.mp hs
    rcases mem_shownFiles_written.mp hshown with ⟨hbefore,hkept⟩ | ⟨v,hlast',hshows',rfl⟩
    · obtain ⟨v,hv,hr⟩ := hold s (List.mem_filter.mpr ⟨hbefore,hpath'⟩)
      exact absurd hr (hkept v hv)
    · exact congrArg some (hown v hlast' hshows' (eq_of_beq (Bool.and_eq_true_iff.mp hpath').1))

/-- What the result names is the workorder's exactly if every wanted file is or, where
the scan gives none, every package of the events. -/
theorem names_own_iff :
    (∀ p ∈ reportedPackages (scanFor env dir atoms built) built, Own id dir p.binpkgPath) ↔
      (fallsBack env dir atoms built = false →
        ∀ s ∈ shownFiles dir, Wants env atoms built s → s.file.madeBy = some id) ∧
      (fallsBack env dir atoms built → ∀ atom ∈ built, Own id dir s!"{atom}.gpkg.tar") := by
  rw [reportedPackages_eq]
  cases hback : fallsBack env dir atoms built with
  | true =>
    rw [if_pos rfl]
    simp only [packagesFromEvents,List.forall_mem_map,Bool.true_eq_false,false_implies,true_and,
      true_implies]
  | false =>
    rw [if_neg Bool.false_ne_true]
    simp only [List.forall_mem_map,Bool.false_eq_true,false_implies,and_true,true_implies]
    constructor
    · rintro h s hshown ⟨hcategory,found,hmeta,hwanted⟩
      have hs := mem_scannedFiles.mpr ⟨hshown,hcategory⟩
      obtain ⟨data,-,hpath,-,-⟩ := metaOf_eq_some hmeta
      exact (h found (mem_wantedFiles.mpr ⟨⟨s,hs,hmeta⟩,hwanted⟩)).2 s
        ((mem_readableAt env).mpr ⟨hshown,hpath.symm,found,hmeta⟩)
    · intro h found hfound
      obtain ⟨⟨s,hs,hmeta⟩,hwanted⟩ := mem_wantedFiles.mp hfound
      obtain ⟨hshown,hcategory⟩ := mem_scannedFiles.mp hs
      obtain ⟨data,-,hpath,-,-⟩ := metaOf_eq_some hmeta
      constructor
      · exact List.ne_nil_of_mem ((mem_readableAt env).mpr ⟨hshown,hpath.symm,found,hmeta⟩)
      · intro s' hs'
        obtain ⟨hshown',hpath',found',hmeta'⟩ := (mem_readableAt env).mp hs'
        have hsame : shownPath s' = shownPath s := hpath'.trans hpath
        refine h s' hshown' ⟨by rw [(shownPath_inj hsame).1]; exact hcategory,found',hmeta',?_⟩
        rw [isWanted_congr hmeta' hmeta hsame]
        exact hwanted

theorem fallsBack_iff : fallsBack env dir atoms built ↔
    (scannable dir → ∀ s ∈ shownFiles dir, ¬Wants env atoms built s) := by
  rw [fallsBack,Bool.or_eq_true,Bool.not_eq_true',← Bool.not_eq_true,List.isEmpty_iff,
    List.eq_nil_iff_forall_not_mem,← imp_iff_not_or]
  refine imp_congr_right fun _ => ⟨fun h s hshown => ?_,fun h found hfound => ?_⟩
  · rintro ⟨hcategory,found,hmeta,hwanted⟩
    exact h found (mem_wantedFiles.mpr
      ⟨⟨s,mem_scannedFiles.mpr ⟨hshown,hcategory⟩,hmeta⟩,hwanted⟩)
  · obtain ⟨⟨s,hs,hmeta⟩,hwanted⟩ := mem_wantedFiles.mp hfound
    exact h s (mem_scannedFiles.mp hs).1 ⟨(mem_scannedFiles.mp hs).2,found,hmeta,hwanted⟩

/-- A result names only packages of its own workorder exactly when its container has
replaced all earlier files with a wanted name and nobody else has written one last. -/
theorem result_names_own_packages_iff (env : Codecs) (prior : BinpkgDir) (ws : List Write)
    (id : WorkorderId) (atoms built : List String)
    (hprior : ∀ s ∈ shownFiles prior, s.file.madeBy ≠ some id) :
    (∀ p ∈ reportedPackages (scanFor env (written ws prior) atoms built) built,
        Own id (written ws prior) p.binpkgPath) ↔
      OnlyOwn env id prior ws atoms built := by
  have hlast : ∀ w, Lasts ws w → Shows prior w → w.shown ∈ shownFiles (written ws prior) :=
    fun w hl hs => mem_shownFiles_written.mpr (.inr ⟨w,hl,hs,rfl⟩)
  have hfound : ∀ s ∈ shownFiles (written ws prior), scannable prior → Wants env atoms built s →
      fallsBack env (written ws prior) atoms built = false := by
    intro s hs hscan hwants
    rw [← Bool.not_eq_true,fallsBack_iff,scannable_written]
    exact fun h => h hscan s hs hwants
  rw [names_own_iff]
  simp only [own_iff hprior]
  constructor
  · rintro ⟨hscanned,hevents⟩
    have hreplaced : scannable prior → ∀ s ∈ shownFiles prior, Wants env atoms built s →
        ∃ w ∈ ws, w.Replaces s := by
      intro hscan s hs hwants
      by_contra hkept
      have hs' : s ∈ shownFiles (written ws prior) :=
        mem_shownFiles_written.mpr (.inl ⟨hs,fun w hw hr => hkept ⟨w,hw,hr⟩⟩)
      exact hprior s hs (hscanned (hfound s hs' hscan hwants) s hs' hwants)
    refine ⟨hreplaced,fun hscan w hl hs hwants => ?_,fun hnone => hevents ?_⟩
    · exact Option.some.inj
        (hscanned (hfound _ (hlast w hl hs) hscan hwants) _ (hlast w hl hs) hwants)
    · rw [fallsBack_iff,scannable_written]
      intro hscan s hs hwants
      rcases mem_shownFiles_written.mp hs with ⟨hbefore,hkept⟩ | ⟨w,hl,hshows,rfl⟩
      · obtain ⟨w,hw,hr⟩ := hreplaced hscan s hbefore hwants
        exact hkept w hw hr
      · exact hnone hscan w hl hshows hwants
  · rintro ⟨hreplaced,hown,hevents⟩
    constructor
    · intro hback s hs hwants
      have hscan : scannable prior := by
        by_contra hno
        rw [← Bool.not_eq_true,fallsBack_iff,scannable_written] at hback
        exact hback fun h => absurd h hno
      rcases mem_shownFiles_written.mp hs with ⟨hbefore,hkept⟩ | ⟨w,hl,hshows,rfl⟩
      · obtain ⟨w,hw,hr⟩ := hreplaced hscan s hbefore hwants
        exact absurd hr (hkept w hw)
      · exact congrArg some (hown hscan w hl hshows hwants)
    · intro hback
      rw [fallsBack_iff,scannable_written] at hback
      exact hevents fun hscan w hl hs => hback hscan _ (hlast w hl hs)

def libsCategory : FileName := ⟨"dev-libs",Eq.refl true⟩

def directoryOf (files : List PackageFile)
    (h : ((files.filter (·.utf8)).map (·.name)).Nodup) : BinpkgDir where
  top := ⟨true,true,[],List.nodup_nil⟩
  subdirectories := [⟨libsCategory,true,⟨true,true,files,h⟩⟩]
  distinct := List.nodup_singleton _

def foreignFile (name : FileName) : PackageFile := ⟨name,true,some [98],some "w0"⟩

def opensslBuild : Write :=
  ⟨"w1",some libsCategory,⟨"openssl-3.0.13-r2.gpkg.tar",Eq.refl true⟩,[97]⟩

def staleDir : BinpkgDir :=
  directoryOf [foreignFile ⟨"openssl-3.0.13-r2.gpkg.tar",Eq.refl true⟩,
    foreignFile ⟨"expat-2.6.2.gpkg.tar",Eq.refl true⟩] (by decide)

/-- The build replaces the file another client has left, and does not want the other one. -/
theorem openssl_build_names_own :
    Own "w1" (written [opensslBuild] staleDir) "dev-libs/openssl-3.0.13-r2.gpkg.tar" := by
  have honly : OnlyOwn plainCodecs "w1" staleDir [opensslBuild] ["dev-libs/openssl"] [] := by
    refine ⟨fun _ s hs hwants => ?_,fun _ w hlast _ _ => ?_,fun _ _ h => (List.not_mem_nil h).elim⟩
    · rcases List.mem_cons.mp hs with rfl | hs
      · exact ⟨opensslBuild,List.mem_cons_self,rfl,rfl,rfl,rfl⟩
      · obtain rfl := List.mem_singleton.mp hs
        obtain ⟨-,found,hmeta,hwanted⟩ := hwants
        cases hmeta
        exact absurd hwanted (by decide)
    · obtain ⟨before,after,he,-⟩ := hlast
      have hw : w ∈ [opensslBuild] := he ▸ List.mem_append_right before List.mem_cons_self
      rw [List.mem_singleton.mp hw]
      rfl
  have hprior : ∀ s ∈ shownFiles staleDir, s.file.madeBy ≠ some "w1" := by decide
  have hall := (result_names_own_packages_iff plainCodecs staleDir [opensslBuild] "w1"
    ["dev-libs/openssl"] [] hprior).mpr honly
  exact hall ⟨"dev-libs/openssl-3.0.13-r2","dev-libs/openssl-3.0.13-r2.gpkg.tar",
    plainCodecs.sha256 [97],1⟩ (by decide)

def oldOpensslDir : BinpkgDir :=
  directoryOf [foreignFile ⟨"openssl-1.1.1w.gpkg.tar",Eq.refl true⟩] (by decide)

/-- Another client's older version is named beside the one that was built. -/
theorem foreign_package_named :
    reportedPackages (scanFor plainCodecs (written [opensslBuild] oldOpensslDir)
        ["dev-libs/openssl"] ["dev-libs/openssl-3.0.13-r2"]) ["dev-libs/openssl-3.0.13-r2"] =
      [⟨"dev-libs/openssl-3.0.13-r2","dev-libs/openssl-3.0.13-r2.gpkg.tar",
        plainCodecs.sha256 [97],1⟩,
        ⟨"dev-libs/openssl-1.1.1w","dev-libs/openssl-1.1.1w.gpkg.tar",plainCodecs.sha256 [98],1⟩] ∧
    ¬Own "w1" (written [opensslBuild] oldOpensslDir) "dev-libs/openssl-1.1.1w.gpkg.tar" := by
  refine ⟨by decide,fun hown => ?_⟩
  have hmakers : ¬∀ s ∈ readableAt (written [opensslBuild] oldOpensslDir)
      "dev-libs/openssl-1.1.1w.gpkg.tar", s.file.madeBy = some "w1" := by decide
  exact hmakers hown.2

end Remerge.BuildProvenance
