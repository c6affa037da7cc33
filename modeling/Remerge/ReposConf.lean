import Remerge.IniText

/-!
# The two readers of repos.conf

The client and the worker each have a reader of their own. They differ in what
they do with blanks inside the brackets of a header and with an empty sync-uri.
-/

set_option autoImplicit false

namespace Remerge.ReposConf
open RustText IniText SnapshotTypes

/-- A section that names a repository; the other one is [DEFAULT]. -/
def isNamed (name : String) : Bool := name ≠ "" && !eqIgnoreAsciiCase name "DEFAULT"

structure ClientRepo where
  name : String
  location : String
  syncUri : Option String
  autoSync : Option Bool
  deriving DecidableEq, Repr

structure ClientScan where
  name : String
  location : Option String
  syncUri : Option String
  autoSync : Option Bool

def parseBool (value : String) : Option Bool :=
  match toAsciiLowercase (trim value) with
  | "yes" | "true" | "1" => some true
  | "no" | "false" | "0" => some false
  | _ => none

def clientSetting (s : ClientScan) (key value : String) : ClientScan :=
  match toAsciiLowercase key with
  | "location" => { s with location := some value }
  | "sync-uri" => if value = "" then s else { s with syncUri := some value }
  | "auto-sync" => { s with autoSync := parseBool value }
  | _ => s

def clientFlush (s : ClientScan) : List ClientRepo :=
  match s.location with
  | some location => if isNamed s.name then [⟨s.name,location,s.syncUri,s.autoSync⟩] else []
  | none => []

def clientReader : SectionReader ClientScan ClientRepo :=
  ⟨fun header => ⟨trim header,none,none,none⟩,clientSetting,clientFlush⟩

def clientRepos (content : String) : List ClientRepo := readSections clientReader content

def shouldSnapshotRepo (repo : ClientRepo) : Bool :=
  !eqIgnoreAsciiCase repo.name "gentoo" &&
    (!"/gentoo".toList.isSuffixOf (trimEndSlashes repo.location.toList) &&
      (repo.autoSync == some false || repo.syncUri.isNone))

/-- The names under which the client may send a copy of a repository. -/
def snapshotNames (reposConf : List String) : List String :=
  ((reposConf.flatMap clientRepos).filter shouldSnapshotRepo).map (·.name)

structure WorkerRepo where
  name : String
  location : String
  syncUri : Option String
  deriving DecidableEq, Repr

structure WorkerScan where
  name : String
  location : Option String
  syncUri : Option String

def workerSetting (s : WorkerScan) (key value : String) : WorkerScan :=
  if eqIgnoreAsciiCase key "location" then { s with location := some value }
  else if eqIgnoreAsciiCase key "sync-uri" then { s with syncUri := some value }
  else s

def workerFlush (s : WorkerScan) : List WorkerRepo :=
  match s.location with
  | some location => if isNamed s.name then [⟨s.name,location,s.syncUri⟩] else []
  | none => []

def workerReader : SectionReader WorkerScan WorkerRepo :=
  ⟨fun header => ⟨header,none,none⟩,workerSetting,workerFlush⟩

def workerRepos (content : String) : List WorkerRepo := readSections workerReader content

/-- `read_repo_locations`, where the restore step looks a name up. -/
def repoLocations (reposConf : List String) : BTreeMap String :=
  (reposConf.flatMap workerRepos).foldl (fun m repo => m.insert repo.name repo.location) ∅

def isLocation (key _value : String) : Bool := eqIgnoreAsciiCase key "location"

def isSyncUri (key _value : String) : Bool := eqIgnoreAsciiCase key "sync-uri"

def isFilledSyncUri (key value : String) : Bool := isSyncUri key value && value ≠ ""

def location (s : Section) : Option String := lastValue isLocation s.settings

theorem lowercase_location : toAsciiLowercase "location" = "location" := by decide

theorem lowercase_syncUri : toAsciiLowercase "sync-uri" = "sync-uri" := by decide

theorem clientSetting_name (s : ClientScan) (key value : String) :
    (clientSetting s key value).name = s.name := by
  unfold clientSetting
  split
  · rfl
  · split <;> rfl
  · rfl
  · rfl

theorem clientSetting_location (s : ClientScan) (key value : String) :
    (clientSetting s key value).location =
      if isLocation key value then some value else s.location := by
  simp only [isLocation,eqIgnoreAsciiCase,lowercase_location]
  unfold clientSetting
  split
  · next h => simp [h]
  · next h =>
    rw [h]
    split <;> rfl
  · next h => simp [h]
  · next h _ _ =>
    rw [if_neg]
    simpa using h

theorem clientSetting_syncUri (s : ClientScan) (key value : String) :
    (clientSetting s key value).syncUri =
      if isFilledSyncUri key value then some value else s.syncUri := by
  simp only [isFilledSyncUri,isSyncUri,eqIgnoreAsciiCase,lowercase_syncUri]
  unfold clientSetting
  split
  · next h => simp [h]
  · next h =>
    by_cases hv : value = ""
    · simp [h,hv]
    · simp [h,hv]
  · next h => simp [h]
  · next _ h _ =>
    rw [if_neg]
    simpa using fun hk => absurd hk h

theorem workerSetting_name (s : WorkerScan) (key value : String) :
    (workerSetting s key value).name = s.name := by
  unfold workerSetting
  split
  · rfl
  · split <;> rfl

theorem workerSetting_location (s : WorkerScan) (key value : String) :
    (workerSetting s key value).location =
      if isLocation key value then some value else s.location := by
  unfold workerSetting isLocation
  split
  · rfl
  · split <;> rfl

theorem workerSetting_syncUri (s : WorkerScan) (key value : String) :
    (workerSetting s key value).syncUri =
      if isSyncUri key value then some value else s.syncUri := by
  unfold workerSetting isSyncUri
  split
  · next h =>
    have hne : eqIgnoreAsciiCase key "sync-uri" = false := by
      simp only [eqIgnoreAsciiCase,beq_iff_eq] at h ⊢
      rw [h]
      decide
    simp [hne]
  · split <;> rfl

def clientView (s : Section) : List (String × String × Bool) :=
  match location s with
  | some loc =>
    if isNamed (trim s.header) then
      [(trim s.header,loc,s.settings.any fun e => isFilledSyncUri e.1 e.2)] else []
  | none => []

def workerView (s : Section) : List (String × String × Bool) :=
  match location s with
  | some loc =>
    if isNamed s.header then [(s.header,loc,s.settings.any fun e => isSyncUri e.1 e.2)] else []
  | none => []

def clientSummary (content : String) : List (String × String × Bool) :=
  (clientRepos content).map fun r => (r.name,r.location,r.syncUri.isSome)

def workerSummary (content : String) : List (String × String × Bool) :=
  (workerRepos content).map fun r => (r.name,r.location,r.syncUri.isSome)

theorem clientSummary_eq (content : String) :
    clientSummary content = (sections content).flatMap clientView := by
  rw [clientSummary,clientRepos,readSections_eq,List.map_flatMap]
  congr 1
  ext1 s
  have hname := atSection_fixed clientReader ClientScan.name clientSetting_name s
  have hloc := atSection_last clientReader ClientScan.location isLocation (fun _ => rfl)
    clientSetting_location s
  have hsync := atSection_last clientReader ClientScan.syncUri isFilledSyncUri (fun _ => rfl)
    clientSetting_syncUri s
  change List.map _ (clientFlush (atSection clientReader s)) = _
  unfold clientFlush clientView location
  rw [hname,hloc,hsync]
  change List.map _ (match lastValue isLocation s.settings with
    | some loc => if isNamed (trim s.header) then _ else _
    | none => _) = _
  cases lastValue isLocation s.settings with
  | none => rfl
  | some loc =>
    cases isNamed (trim s.header) with
    | false => rfl
    | true => simp [lastValue_isSome,clientReader]

theorem workerSummary_eq (content : String) :
    workerSummary content = (sections content).flatMap workerView := by
  rw [workerSummary,workerRepos,readSections_eq,List.map_flatMap]
  congr 1
  ext1 s
  have hname := atSection_fixed workerReader WorkerScan.name workerSetting_name s
  have hloc := atSection_last workerReader WorkerScan.location isLocation (fun _ => rfl)
    workerSetting_location s
  have hsync := atSection_last workerReader WorkerScan.syncUri isSyncUri (fun _ => rfl)
    workerSetting_syncUri s
  change List.map _ (workerFlush (atSection workerReader s)) = _
  unfold workerFlush workerView location
  rw [hname,hloc,hsync]
  change List.map _ (match lastValue isLocation s.settings with
    | some loc => if isNamed s.header then _ else _
    | none => _) = _
  cases lastValue isLocation s.settings with
  | none => rfl
  | some loc =>
    cases isNamed s.header with
    | false => rfl
    | true => simp [lastValue_isSome,workerReader]

/-- Both readers return the same repositories and agree on which have a sync-uri. -/
def ReadAlike (content : String) : Prop := clientSummary content = workerSummary content

/-- No blanks inside the brackets, and a sync-uri that is given is given a value. -/
def Plain (s : Section) : Prop :=
  location s ≠ none → trim s.header = s.header ∧
    (isNamed s.header → s.settings.any (fun e => isSyncUri e.1 e.2) →
      s.settings.any (fun e => isFilledSyncUri e.1 e.2))

theorem toLower_of_isWhitespace {c : Char} (h : isWhitespace c) : c.toLower = c := by
  unfold Char.toLower
  rw [dif_neg]
  rintro ⟨hlow,hhigh⟩
  have hl : 65 ≤ c.toNat := hlow
  have hh : c.toNat ≤ 90 := hhigh
  simp only [isWhitespace,Bool.or_eq_true,Bool.and_eq_true,decide_eq_true_eq,beq_iff_eq] at h
  omega

variable {name : String} {s : Section}

theorem trim_of_default (h : eqIgnoreAsciiCase name "DEFAULT" = true) : trim name = name := by
  have hlower : name.toList.map Char.toLower = "default".toList := by
    have h' : toAsciiLowercase name = toAsciiLowercase "DEFAULT" := by
      simpa [eqIgnoreAsciiCase] using h
    have hlist := congrArg String.toList h'
    rw [toAsciiLowercase,String.toList_ofList] at hlist
    rw [hlist]
    decide
  have hletters : ∀ c ∈ name.toList, isWhitespace c = false := by
    intro c hc
    rw [← Bool.not_eq_true]
    intro hspace
    have hmem : c ∈ name.toList.map Char.toLower :=
      List.mem_map.mpr ⟨c,hc,toLower_of_isWhitespace hspace⟩
    rw [hlower] at hmem
    have hno : ("default".toList.all fun d => !isWhitespace d) := by decide
    have hc := List.all_eq_true.mp hno c hmem
    simp [hspace] at hc
  rw [trim,trimList_of_ends (fun c hc => hletters c (List.mem_of_head? hc))
    (fun c hc => hletters c (List.mem_of_getLast? hc)),String.ofList_toList]

theorem isNamed_of_untrimmed (h : trim name ≠ name) : isNamed name := by
  have hne : name ≠ "" := by
    rintro rfl
    exact h (by decide)
  have hdefault : eqIgnoreAsciiCase name "DEFAULT" = false := by
    rw [← Bool.not_eq_true]
    exact fun hd => h (trim_of_default hd)
  simp [isNamed,hne,hdefault]

theorem clientView_trimmed {e : String × String × Bool} (h : e ∈ clientView s) :
    trim e.1 = e.1 := by
  unfold clientView at h
  split at h
  · split at h
    · rw [List.mem_singleton.mp h]
      simp [trim]
    · simp at h
  · simp at h

theorem workerView_untrimmed {loc : String} (hloc : location s = some loc)
    (h : trim s.header ≠ s.header) : ∃ sync, (s.header,loc,sync) ∈ workerView s := by
  rw [workerView,hloc,isNamed_of_untrimmed h]
  exact ⟨_,List.mem_singleton.mpr rfl⟩

theorem trimmed_of_readAlike {content : String} (h : ReadAlike content) (hs : s ∈ sections content)
    (hl : location s ≠ none) : trim s.header = s.header := by
  by_contra htrim
  obtain ⟨loc,hloc⟩ := Option.ne_none_iff_exists'.mp hl
  obtain ⟨sync,hview⟩ := workerView_untrimmed hloc htrim
  unfold ReadAlike at h
  rw [clientSummary_eq,workerSummary_eq] at h
  have hmem : (s.header,loc,sync) ∈ (sections content).flatMap clientView := by
    rw [h]
    exact List.mem_flatMap.mpr ⟨s,hs,hview⟩
  obtain ⟨s',-,hs'⟩ := List.mem_flatMap.mp hmem
  have htrimmed := clientView_trimmed hs'
  exact htrim htrimmed

theorem eq_of_flatMap_eq {α β : Type} {f g : α → List β} {l : List α}
    (hlen : ∀ a ∈ l, (f a).length = (g a).length) (h : l.flatMap f = l.flatMap g) :
    ∀ a ∈ l, f a = g a := by
  induction l with
  | nil => simp
  | cons b l ih =>
    rw [List.flatMap_cons,List.flatMap_cons] at h
    obtain ⟨hb,hl⟩ := List.append_inj h (hlen b (by simp))
    intro a ha
    rcases List.mem_cons.mp ha with rfl | ha
    · exact hb
    · exact ih (fun c hc => hlen c (by simp [hc])) hl a ha

theorem any_isSyncUri_of_filled {settings : List (String × String)}
    (h : settings.any (fun e => isFilledSyncUri e.1 e.2)) :
    settings.any (fun e => isSyncUri e.1 e.2) := by
  rw [List.any_eq_true] at h ⊢
  obtain ⟨e,he,hfilled⟩ := h
  exact ⟨e,he,(Bool.and_eq_true_iff.mp hfilled).1⟩

theorem views_eq_iff (htrim : location s ≠ none → trim s.header = s.header) :
    clientView s = workerView s ↔ Plain s := by
  unfold clientView workerView Plain
  cases hloc : location s with
  | none => simp
  | some loc =>
    have ht := htrim (by simp [hloc])
    rw [ht]
    cases hnamed : isNamed s.header with
    | false => simp
    | true =>
      constructor
      · intro hview
        refine fun _ => ⟨rfl,fun _ hsync => ?_⟩
        simp only [if_true,List.cons.injEq,Prod.mk.injEq,true_and,and_true] at hview
        rw [hview]
        exact hsync
      · intro hplain
        have hsync : s.settings.any (fun e => isFilledSyncUri e.1 e.2) =
            s.settings.any (fun e => isSyncUri e.1 e.2) :=
          Bool.eq_iff_iff.mpr ⟨any_isSyncUri_of_filled,(hplain (by simp)).2 rfl⟩
        rw [hsync]

theorem length_views (htrim : location s ≠ none → trim s.header = s.header) :
    (clientView s).length = (workerView s).length := by
  unfold clientView workerView
  cases hloc : location s with
  | none => rfl
  | some loc =>
    rw [htrim (by simp [hloc])]
    cases isNamed s.header <;> rfl

theorem readAlike_iff (content : String) : ReadAlike content ↔ ∀ s ∈ sections content, Plain s := by
  constructor
  · intro h s hs
    have htrim := fun (s : Section) (hs : s ∈ sections content) => trimmed_of_readAlike h hs
    have hviews := h
    rw [ReadAlike,clientSummary_eq,workerSummary_eq] at hviews
    exact (views_eq_iff (htrim s hs)).mp
      (eq_of_flatMap_eq (fun s hs => length_views (htrim s hs)) hviews s hs)
  · intro h
    rw [ReadAlike,clientSummary_eq,workerSummary_eq]
    exact List.flatMap_congr fun s hs => (views_eq_iff fun hl => (h s hs hl).1).mpr (h s hs)

variable {reposConf : List String}

theorem mem_repoLocations (h : ∃ repo ∈ reposConf.flatMap workerRepos, repo.name = name) :
    name ∈ repoLocations reposConf := by
  unfold repoLocations
  generalize reposConf.flatMap workerRepos = repos at h
  have hgo : ∀ (m : BTreeMap String), (name ∈ m ∨ ∃ repo ∈ repos, repo.name = name) →
      name ∈ repos.foldl (fun m repo => m.insert repo.name repo.location) m := by
    clear h
    induction repos with
    | nil => simp
    | cons repo repos ih =>
      intro m h
      refine ih _ ?_
      rcases h with h | ⟨r,hr,hname⟩
      · exact .inl (Std.TreeMap.mem_insert.mpr (.inr h))
      · rcases List.mem_cons.mp hr with rfl | hr
        · exact .inl (Std.TreeMap.mem_insert.mpr (.inl (by simp [hname])))
        · exact .inr ⟨r,hr,hname⟩
  exact hgo ∅ (.inr h)

theorem mem_repoLocations_of_snapshot (h : ∀ content ∈ reposConf, ReadAlike content)
    (hname : name ∈ snapshotNames reposConf) : name ∈ repoLocations reposConf := by
  obtain ⟨repo,hrepo,rfl⟩ := List.mem_map.mp hname
  obtain ⟨content,hcontent,hread⟩ := List.mem_flatMap.mp (List.mem_filter.mp hrepo).1
  have hsummary : (repo.name,repo.location,repo.syncUri.isSome) ∈ workerSummary content := by
    rw [← h content hcontent]
    exact List.mem_map.mpr ⟨repo,hread,rfl⟩
  obtain ⟨found,hfound,hsame⟩ := List.mem_map.mp hsummary
  exact mem_repoLocations
    ⟨found,List.mem_flatMap.mpr ⟨content,hcontent,hfound⟩,congrArg Prod.fst hsame⟩

instance (s : Section) : Decidable (Plain s) := by
  unfold Plain
  infer_instance

instance (content : String) : Decidable (ReadAlike content) := by
  unfold ReadAlike
  infer_instance

/-- Client and worker read a text alike exactly when its sections are plain; of
plain texts the worker finds every repository the client sends a copy of. -/
theorem repos_conf_read_alike_iff (content : String) (reposConf : List String) :
    (ReadAlike content ↔ ∀ s ∈ sections content, Plain s) ∧
      ((∀ text ∈ reposConf, ∀ s ∈ sections text, Plain s) →
        ∀ name ∈ snapshotNames reposConf, name ∈ repoLocations reposConf) := by
  refine ⟨readAlike_iff content,fun h name hname => ?_⟩
  exact mem_repoLocations_of_snapshot (fun text ht => (readAlike_iff text).mpr (h text ht)) hname

def sampleText : String :=
  "[DEFAULT]\nmain-repo = gentoo\n\n[gentoo]\nlocation = /g\n[local]\nLocation=/srv/local\n"

theorem sample_repos_read_alike :
    ReadAlike sampleText ∧ snapshotNames [sampleText] = ["local"] ∧
      "local" ∈ repoLocations [sampleText] := by
  have hplain : ∀ s ∈ sections sampleText, Plain s := by decide
  have hnames : snapshotNames [sampleText] = ["local"] := by decide
  have h := repos_conf_read_alike_iff sampleText [sampleText]
  exact ⟨h.1.mpr hplain,hnames,h.2 (by simpa using hplain) "local" (by simp [hnames])⟩

def blankText : String := "[ local ]\nlocation = /srv/local\n"

/-- With blanks in the header the copy is sent under a name the worker does not
know; an empty sync-uri is none for the client and one for the worker. -/
theorem repos_conf_read_differently :
    ¬ ReadAlike blankText ∧ snapshotNames [blankText] = ["local"] ∧
      "local" ∉ repoLocations [blankText] ∧
      ¬ ReadAlike "[a]\nlocation = /a\nsync-uri =\n" := by
  decide

end Remerge.ReposConf
