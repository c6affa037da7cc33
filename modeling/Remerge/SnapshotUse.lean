import Remerge.SnapshotCleanup

/-!
# What store programs find and delete

Two monitors over the calls into the snapshot store. The first collects the
entries a program has been told are present; with it, a manifest that
normalisation accepts names only entries that were found or stored on the way.
The second collects what a cleanup pass has listed as old and unreferenced; the
pass deletes nothing else.
-/

set_option autoImplicit false

namespace Remerge.SnapshotUse
open StepProgram SnapshotTypes StagingPaths SnapshotStore SnapshotRuntime SnapshotCleanup

abbrev Key : Type := EntryKind × Digest

def manifestKeys (manifest : SnapshotManifest) : List Key :=
  (manifestBlobs manifest).map (fun d => (.blob,d))++
    (manifestTrees manifest).map (fun d => (.tree,d))

section

def reported (o : StoreOp) (r : StoreRes o) : Option Key :=
  match o, r with
  | .ensureBlobExists d, .ok _ => some (.blob,d)
  | .loadBlobMetadata d, .ok _ => some (.blob,d)
  | .storeBlob _, .ok d => some (.blob,d)
  | .storeBlobForDigest d _, .ok _ => some (.blob,d)
  | .storeTree _, .ok d => some (.tree,d)
  | _, _ => none

def foundNext (seen : List Key) (o : StoreOp) (r : StoreRes o) : List Key :=
  (reported o r).toList++seen

def foundMonitor : Monitor StoreOp StoreRes (List Key) where
  allows _ o := o.deletes = none
  next := foundNext

theorem subset_foundNext (seen : List Key) (o : StoreOp) (r : StoreRes o) :
    seen ⊆ foundNext seen o r :=
  List.subset_append_right _ _

variable {α β : Type} {seen : List Key}

/-- From the entries seen so far on, the program deletes nothing, forgets
nothing, and a successful result is as described. -/
def Finds (seen : List Key) (x : StoreProg α) (post : List Key → α → Prop) : Prop :=
  Conforms foundMonitor (fun seen' r => match r with
    | .ok a => post seen' a ∧ seen ⊆ seen'
    | .error _ => True) seen (outcome x)

variable {post : List Key → α → Prop} {x : StoreProg α}

theorem finds_pure {a : α} (h : post seen a) : Finds seen (pure a) post := ⟨h,List.Subset.refl _⟩

theorem finds_throw (e : Failure) : Finds seen (throw e : StoreProg α) post := trivial

theorem finds_throw_bind {post : List Key → β → Prop} (e : Failure) (f : α → StoreProg β) :
    Finds seen ((throw e : StoreProg α) >>= f) post := trivial

theorem finds_mono {post' : List Key → α → Prop} (h : Finds seen x post)
    (hp : ∀ seen' a, seen ⊆ seen' → post seen' a → post' seen' a) : Finds seen x post' := by
  refine conforms_mono h ?_
  intro seen' r hr
  cases r with
  | ok a => exact ⟨hp seen' a hr.2 hr.1,hr.2⟩
  | error e => trivial

theorem finds_bind {f : α → StoreProg β} {mid : List Key → α → Prop} {post : List Key → β → Prop}
    (hx : Finds seen x mid) (hf : ∀ seen' a, seen ⊆ seen' → mid seen' a → Finds seen' (f a) post) :
    Finds seen (x >>= f) post := by
  unfold Finds
  rw [outcome_bind]
  refine conforms_bind hx ?_
  intro seen' r hr
  cases r with
  | error e => trivial
  | ok a =>
    refine conforms_mono (hf seen' a hr.2 hr.1) ?_
    intro seen'' r' hr'
    cases r' with
    | ok b => exact ⟨hr'.1,List.Subset.trans hr.2 hr'.2⟩
    | error e => trivial

theorem finds_call (o : StoreOp) (answer : StoreRes o → Except Failure α)
    (hx : outcome x = .step o fun r => .ret (answer r)) (hd : o.deletes = none)
    (hp : ∀ r a, answer r = .ok a → post (foundNext seen o r) a) : Finds seen x post := by
  unfold Finds
  rw [hx]
  refine ⟨hd,fun r => ?_⟩
  change match answer r with
    | .ok a => post (foundNext seen o r) a ∧ seen ⊆ foundNext seen o r
    | .error _ => True
  cases h : answer r with
  | ok a => exact ⟨hp r a h,subset_foundNext seen o r⟩
  | error e => trivial

theorem finds_quiet (o : StoreOp) (answer : StoreRes o → Except Failure α)
    (hx : outcome x = .step o fun r => .ret (answer r)) (hd : o.deletes = none) :
    Finds seen x fun _ _ => True := finds_call o answer hx hd fun _ _ _ => trivial

theorem finds_ensureBlobExists (d : Digest) :
    Finds seen (ensureBlobExists d) fun seen' _ => (.blob,d) ∈ seen' := by
  refine finds_call (.ensureBlobExists d) id rfl rfl fun r a h => ?_
  subst h
  exact List.mem_cons_self

theorem finds_loadBlobMetadata (d : Digest) :
    Finds seen (loadBlobMetadata d) fun seen' _ => (.blob,d) ∈ seen' := by
  refine finds_call (.loadBlobMetadata d) id rfl rfl fun r a h => ?_
  subst h
  exact List.mem_cons_self

theorem finds_storeBlob (bytes : Bytes) :
    Finds seen (storeBlob bytes) fun seen' d => (.blob,d) ∈ seen' := by
  refine finds_call (.storeBlob bytes) id rfl rfl fun r a h => ?_
  subst h
  exact List.mem_cons_self

theorem finds_storeBlobForDigest (d : Digest) (bytes : Bytes) :
    Finds seen (storeBlobForDigest d bytes) fun _ _ => True :=
  finds_call (.storeBlobForDigest d bytes) id rfl rfl fun _ _ _ => trivial

theorem finds_storeTree (entries : BTreeMap Digest) :
    Finds seen (storeTree entries) fun seen' d => (.tree,d) ∈ seen' := by
  refine finds_call (.storeTree entries) id rfl rfl fun r a h => ?_
  subst h
  exact List.mem_cons_self

theorem finds_fromExcept (r : Except Failure α) : Finds seen (fromExcept r) fun _ _ => True := by
  cases r with
  | ok a => exact ⟨trivial,List.Subset.refl _⟩
  | error e => trivial

end

section
variable {seen seen' : List Key} {config : PortageConfig}

def EntriesSeen (seen : List Key) (entries : BTreeMap SnapshotEntry) : Prop :=
  ∀ (path : String) (e : SnapshotEntry), entries[path]? = some e → (.blob,e.digest) ∈ seen

def RepoSeen (seen : List Key) (repo : RepoSnapshotManifest) : Prop :=
  EntriesSeen seen repo.entries ∧ (repo.treeDigest ≠ "" → (.tree,repo.treeDigest) ∈ seen)

variable {entries : BTreeMap SnapshotEntry}

theorem EntriesSeen.mono (h : EntriesSeen seen entries) (hs : seen ⊆ seen') :
    EntriesSeen seen' entries := fun path e he => hs (h path e he)

theorem RepoSeen.mono {repo : RepoSnapshotManifest} (h : RepoSeen seen repo)
    (hs : seen ⊆ seen') : RepoSeen seen' repo := ⟨h.1.mono hs,fun hn => hs (h.2 hn)⟩

theorem entriesSeen_insert {path : String} {e : SnapshotEntry} (h : EntriesSeen seen entries)
    (he : (.blob,e.digest) ∈ seen) : EntriesSeen seen (entries.insert path e) := by
  intro path' e' hl
  rw [Std.TreeMap.getElem?_insert] at hl
  split at hl
  · cases hl
    exact he
  · exact h path' e' hl

theorem finds_ensureBlobsExist (ds : List Digest) :
    Finds seen (ensureBlobsExist ds) fun seen' _ => ∀ d ∈ ds, (.blob,d) ∈ seen' := by
  induction ds generalizing seen with
  | nil => exact finds_pure (by simp)
  | cons d ds ih =>
    refine finds_bind (finds_ensureBlobExists d) fun seen1 _ _ hd => ?_
    refine finds_mono ih fun seen2 _ hs hds x hx => ?_
    rcases List.mem_cons.mp hx with rfl | hx
    · exact hs hd
    · exact hds x hx

theorem finds_loadReferencedEntries (refs : List (String × Digest))
    (entries : BTreeMap SnapshotEntry) (h : EntriesSeen seen entries) :
    Finds seen (loadReferencedEntries refs entries) fun seen' r => EntriesSeen seen' r := by
  induction refs generalizing seen entries with
  | nil => exact finds_pure h
  | cons ref refs ih =>
    refine finds_bind (finds_loadBlobMetadata ref.2) fun seen1 metadata hs hd => ?_
    exact ih _ (entriesSeen_insert (h.mono hs) hd)

theorem finds_storeInlineEntries (repoName : String) (existing : Option RepoSnapshotManifest)
    (files : List (String × String)) (entries : BTreeMap SnapshotEntry)
    (h : EntriesSeen seen entries) :
    Finds seen (storeInlineEntries config repoName existing files entries) fun seen' r =>
      EntriesSeen seen' r ∧ (r.isEmpty → files = [] ∧ entries.isEmpty) := by
  induction files generalizing seen entries with
  | nil => exact finds_pure ⟨h,fun he => ⟨rfl,he⟩⟩
  | cons file files ih =>
    obtain ⟨path,content⟩ := file
    refine finds_bind (finds_storeBlob _) fun seen1 d hs hd => ?_
    dsimp only
    split
    · exact finds_throw_bind _ _
    · refine finds_mono (ih _ (entriesSeen_insert (h.mono hs) hd))
        fun seen2 r _ hr => ⟨hr.1,fun he => ?_⟩
      have hn := (hr.2 he).2
      rw [Std.TreeMap.isEmpty_insert] at hn
      cases hn

theorem finds_checkTree (repoName : String) (expected : Option Digest) (stored : Digest) :
    Finds seen (checkTree repoName expected stored) fun _ _ =>
      ∀ d, expected = some d → stored = d := by
  unfold checkTree
  split
  · split
    · exact finds_throw _
    · next h =>
      refine finds_pure fun d he => ?_
      cases he
      simpa using h
  · exact finds_pure fun d he => by cases he

/-- An inline repository without files does not stand for a manifest entry
that lists some. -/
def InlineConsistent (config : PortageConfig) : Prop :=
  ∀ (repoName : String) (files : BTreeMap String) (old : RepoSnapshotManifest),
    config.repoSnapshots[repoName]? = some files → files.isEmpty →
    config.snapshotManifest.repoSnapshots[repoName]? = some old → old.entries.isEmpty

theorem entriesSeen_of_isEmpty (h : entries.isEmpty) : EntriesSeen seen entries := by
  intro path e he
  rw [Std.TreeMap.getElem?_of_isEmpty h] at he
  cases he

theorem entriesSeen_of_digestsOf (h : ∀ d ∈ digestsOf entries, (.blob,d) ∈ seen) :
    EntriesSeen seen entries := by
  intro path e he
  refine h e.digest (List.mem_map.mpr ⟨(path,e),?_,rfl⟩)
  exact Std.TreeMap.mem_toList_iff_getElem?_eq_some.mpr he

theorem treeSeen_of_check {old tree : Digest} {other : Option Digest}
    (ht : (.tree,tree) ∈ seen)
    (hc : ∀ d, (announced (some old)).or other = some d → tree = d) :
    old ≠ "" → (.tree,old) ∈ seen := by
  intro hn
  have he : (announced (some old)).or other = some old := by simp [announced,hn]
  rw [← hc old he]
  exact ht

theorem finds_buildRepo (manifest : SnapshotManifest) (repoName : String)
    (hm : manifest.repoSnapshots[repoName]? = config.snapshotManifest.repoSnapshots[repoName]?) :
    Finds seen (buildRepoSnapshotManifest config manifest repoName) fun seen' repo =>
      RepoSeen seen' repo ∧ (InlineConsistent config → repo.entries.isEmpty →
        ∀ old, manifest.repoSnapshots[repoName]? = some old → RepoSeen seen' old) := by
  unfold buildRepoSnapshotManifest
  cases hfiles : config.repoSnapshots[repoName]? with
  | some files =>
    dsimp only
    refine finds_bind (finds_storeInlineEntries repoName _ _ ∅
      (entriesSeen_of_isEmpty Std.TreeMap.isEmpty_emptyc)) fun s1 entries _ he => ?_
    refine finds_bind (finds_storeTree _) fun s2 tree h12 ht => ?_
    refine finds_bind (finds_checkTree _ _ _) fun s3 _ h23 hc => ?_
    have hseen : EntriesSeen s3 entries := (he.1.mono h12).mono h23
    refine finds_pure ⟨⟨hseen,fun _ => h23 ht⟩,fun hin hempty old hold => ?_⟩
    have hnil : files.isEmpty := by
      rw [← Std.TreeMap.isEmpty_toList,(he.2 hempty).1]
      rfl
    refine ⟨entriesSeen_of_isEmpty (hin repoName files old hfiles hnil (hm ▸ hold)),?_⟩
    rw [hold] at hc
    exact treeSeen_of_check (h23 ht) hc
  | none =>
    cases hold : manifest.repoSnapshots[repoName]? with
    | some repo =>
      dsimp only
      refine finds_bind (finds_ensureBlobsExist _) fun s1 _ _ hd => ?_
      refine finds_bind (finds_storeTree _) fun s2 tree h12 ht => ?_
      refine finds_bind (finds_checkTree _ _ _) fun s3 _ h23 hc => ?_
      have hseen : EntriesSeen s3 repo.entries :=
        ((entriesSeen_of_digestsOf hd).mono h12).mono h23
      refine finds_pure ⟨⟨hseen,fun _ => h23 ht⟩,fun _ _ old ho => ?_⟩
      cases ho
      have hc' : ∀ d, (announced (some repo.treeDigest)).or none = some d → tree = d := by
        simpa using hc
      exact ⟨hseen,treeSeen_of_check (h23 ht) hc'⟩
    | none =>
      cases config.repoSnapshotRefs[repoName]? with
      | some refs =>
        dsimp only
        refine finds_bind (finds_loadReferencedEntries _ ∅
          (entriesSeen_of_isEmpty Std.TreeMap.isEmpty_emptyc)) fun s1 entries _ he => ?_
        refine finds_bind (finds_storeTree _) fun s2 tree h12 ht => ?_
        refine finds_bind (finds_checkTree _ _ _) fun s3 _ h23 hc => ?_
        refine finds_pure ⟨⟨(he.mono h12).mono h23,fun _ => h23 ht⟩,fun _ _ old ho => ?_⟩
        cases ho
      | none =>
        refine finds_pure ⟨⟨entriesSeen_of_isEmpty Std.TreeMap.isEmpty_emptyc,
          fun hn => absurd rfl hn⟩,fun _ _ old ho => ?_⟩
        cases ho

theorem nodup_keySet (keys : List String) : (keySet keys).Nodup := by
  unfold keySet
  refine Std.TreeMap.distinct_keys.imp fun h e => h ?_
  rw [e]
  exact Std.ReflCmp.compare_self

theorem mem_foldl_insert (keys : List String) (t : BTreeMap Unit) (k : String) :
    k ∈ keys.foldl (fun s k => s.insert k ()) t ↔ k ∈ keys ∨ k ∈ t := by
  induction keys generalizing t with
  | nil => simp
  | cons x xs ih =>
    rw [List.foldl_cons,ih]
    simp only [Std.TreeMap.mem_insert,List.mem_cons,Std.LawfulEqCmp.compare_eq_iff_eq]
    constructor
    · rintro (h | rfl | h)
      · exact .inl (.inr h)
      · exact .inl (.inl rfl)
      · exact .inr h
    · rintro ((rfl | h) | h)
      · exact .inr (.inl rfl)
      · exact .inl h
      · exact .inr (.inr h)

theorem mem_keySet (keys : List String) (k : String) : k ∈ keySet keys ↔ k ∈ keys := by
  unfold keySet
  rw [Std.TreeMap.mem_keys,mem_foldl_insert]
  simp

theorem finds_addRepos (names : List String) (hn : names.Nodup)
    (manifest : SnapshotManifest)
    (hrest : ∀ name ∈ names,
      manifest.repoSnapshots[name]? = config.snapshotManifest.repoSnapshots[name]?)
    (hseen : InlineConsistent config → ∀ (name : String) (repo : RepoSnapshotManifest),
      manifest.repoSnapshots[name]? = some repo → name ∈ names ∨ RepoSeen seen repo) :
    Finds seen (addRepos config names manifest) fun seen' r =>
      (InlineConsistent config → ∀ (name : String) (repo : RepoSnapshotManifest),
        r.repoSnapshots[name]? = some repo → RepoSeen seen' repo) ∧
      r.distfiles = manifest.distfiles := by
  induction names generalizing seen manifest with
  | nil =>
    refine finds_pure ⟨fun hin name repo hl => ?_,rfl⟩
    rcases hseen hin name repo hl with h | h
    · cases h
    · exact h
  | cons name names ih =>
    obtain ⟨hnew,hn⟩ := List.nodup_cons.mp hn
    have hhere := hrest name List.mem_cons_self
    refine finds_bind (finds_buildRepo manifest name hhere) fun s1 repo hs hrepo => ?_
    by_cases he : repo.entries.isEmpty
    · rw [if_pos he]
      refine ih hn manifest (fun x hx => hrest x (List.mem_cons_of_mem _ hx)) ?_
      intro hin x old hl
      rcases hseen hin x old hl with hx | hx
      · rcases List.mem_cons.mp hx with rfl | hx
        · exact .inr (hrepo.2 hin he old hl)
        · exact .inl hx
      · exact .inr (hx.mono hs)
    · rw [if_neg he]
      refine ih hn _ (fun x hx => ?_) ?_
      · have hne : name ≠ x := fun e => hnew (e ▸ hx)
        change (manifest.repoSnapshots.insert name repo)[x]? = _
        rw [Std.TreeMap.getElem?_insert,if_neg (by simpa using hne)]
        exact hrest x (List.mem_cons_of_mem _ hx)
      · intro hin x old hl
        change (manifest.repoSnapshots.insert name repo)[x]? = some old at hl
        rw [Std.TreeMap.getElem?_insert] at hl
        split at hl
        · cases hl
          exact .inr hrepo.1
        · next hne =>
          rcases hseen hin x old hl with hx | hx
          · rcases List.mem_cons.mp hx with rfl | hx
            · exact absurd Std.ReflCmp.compare_self hne
            · exact .inl hx
          · exact .inr (hx.mono hs)

theorem finds_buildDistfile (manifest : SnapshotManifest) (name : String) :
    Finds seen (buildDistfileSnapshotEntry config manifest name) fun seen' r =>
      match r with
      | some entry => (.blob,entry.digest) ∈ seen'
      | none => manifest.distfiles[name]? = none := by
  unfold buildDistfileSnapshotEntry
  cases config.distfileSnapshots[name]? with
  | some bytes =>
    dsimp only
    refine finds_bind (finds_storeBlob bytes) fun s1 d _ hd => ?_
    split
    · exact finds_throw_bind _ _
    · exact finds_pure hd
  | none =>
    cases hold : manifest.distfiles[name]? with
    | some entry =>
      exact finds_bind (finds_ensureBlobExists _) fun s1 _ _ hd => finds_pure hd
    | none =>
      cases config.distfileSnapshotRefs[name]? with
      | some d => exact finds_bind (finds_loadBlobMetadata d) fun s1 _ _ hd => finds_pure hd
      | none => exact finds_pure rfl

theorem finds_addDistfiles (names : List String) (manifest : SnapshotManifest)
    (hseen : ∀ (name : String) (e : SnapshotEntry),
      manifest.distfiles[name]? = some e → name ∈ names ∨ (.blob,e.digest) ∈ seen) :
    Finds seen (addDistfiles config names manifest) fun seen' r =>
      EntriesSeen seen' r.distfiles ∧ r.repoSnapshots = manifest.repoSnapshots := by
  induction names generalizing seen manifest with
  | nil =>
    refine finds_pure ⟨fun name e hl => ?_,rfl⟩
    rcases hseen name e hl with h | h
    · cases h
    · exact h
  | cons name names ih =>
    refine finds_bind (finds_buildDistfile manifest name) fun s1 r hs hr => ?_
    cases r with
    | none =>
      have hnone : manifest.distfiles[name]? = none := hr
      refine ih manifest fun x e hl => ?_
      rcases hseen x e hl with hx | hx
      · rcases List.mem_cons.mp hx with rfl | hx
        · rw [hnone] at hl
          cases hl
        · exact .inl hx
      · exact .inr (hs hx)
    | some entry =>
      have hentry : (.blob,entry.digest) ∈ s1 := hr
      refine ih _ fun x e hl => ?_
      change (manifest.distfiles.insert name entry)[x]? = some e at hl
      rw [Std.TreeMap.getElem?_insert] at hl
      split at hl
      · cases hl
        exact .inr hentry
      · next hne =>
        rcases hseen x e hl with hx | hx
        · rcases List.mem_cons.mp hx with rfl | hx
          · exact absurd Std.ReflCmp.compare_self hne
          · exact .inl hx
        · exact .inr (hs hx)

theorem mem_keys_of_getElem? {ν : Type} {t : BTreeMap ν} {k : String} {v : ν}
    (h : t[k]? = some v) : k ∈ t.keys :=
  Std.TreeMap.mem_keys.mpr (Std.TreeMap.mem_iff_isSome_getElem?.mpr (by rw [h]; rfl))

theorem finds_effectiveSnapshotManifest :
    Finds seen (effectiveSnapshotManifest config) fun seen' m =>
      InlineConsistent config → ∀ key ∈ manifestKeys m, key ∈ seen' := by
  unfold effectiveSnapshotManifest
  split
  · exact finds_throw_bind _ _
  · refine finds_bind (finds_addRepos (repoNames config) (nodup_keySet _) _
      (fun _ _ => rfl) fun _ name repo hl => .inl ?_) fun s1 m1 _ hrepos => ?_
    · exact (mem_keySet _ _).mpr (List.mem_append_right _ (mem_keys_of_getElem? hl))
    · refine finds_mono (finds_addDistfiles (distfileNames config) m1
        fun name e hl => .inl ?_) fun s2 m2 hs hm hin key hkey => ?_
      · rw [hrepos.2] at hl
        exact (mem_keySet _ _).mpr (List.mem_append_right _ (mem_keys_of_getElem? hl))
      · have hrepo : ∀ (name : String) repo, (name,repo) ∈ m2.repoSnapshots.toList →
            RepoSeen s2 repo := by
          intro name repo hl
          rw [hm.2] at hl
          exact (hrepos.1 hin name repo (Std.TreeMap.mem_toList_iff_getElem?_eq_some.mp hl)).mono hs
        have hdigests : ∀ {entries : BTreeMap SnapshotEntry} {d : Digest},
            EntriesSeen s2 entries → d ∈ digestsOf entries → (.blob,d) ∈ s2 := by
          intro entries d he hd
          obtain ⟨⟨path,e⟩,hp,rfl⟩ := List.mem_map.mp hd
          exact he path e (Std.TreeMap.mem_toList_iff_getElem?_eq_some.mp hp)
        rcases List.mem_append.mp hkey with hb | ht
        · obtain ⟨d,hd,rfl⟩ := List.mem_map.mp hb
          rcases List.mem_append.mp hd with hd | hd
          · obtain ⟨⟨name,repo⟩,hr,hd⟩ := List.mem_flatMap.mp hd
            exact hdigests (hrepo name repo hr).1 hd
          · exact hdigests hm.1 hd
        · obtain ⟨d,hd,rfl⟩ := List.mem_map.mp ht
          obtain ⟨hd,hne⟩ := List.mem_filter.mp hd
          obtain ⟨⟨name,repo⟩,hr,rfl⟩ := List.mem_map.mp hd
          exact (hrepo name repo hr).2 (by simpa using hne)

theorem finds_normalize :
    Finds seen (normalizePortageConfigSnapshots config) fun seen' r =>
      InlineConsistent config → ∀ key ∈ manifestKeys r.snapshotManifest, key ∈ seen' :=
  finds_bind finds_effectiveSnapshotManifest fun _ _ _ h => finds_pure h

theorem finds_totalSize (kind : EntryKind) (ds : List Digest) (total : ℕ) :
    Finds seen (totalSize kind ds total) fun _ _ => True := by
  induction ds generalizing seen total with
  | nil => exact finds_pure trivial
  | cons d ds ih =>
    exact finds_bind (finds_quiet (.rawSize kind d) id rfl rfl) fun _ _ _ _ => ih _

theorem finds_collectSnapshotReferences (config : PortageConfig) :
    Finds seen (collectSnapshotReferences config) fun _ _ => True :=
  finds_bind finds_effectiveSnapshotManifest fun _ _ _ _ =>
    finds_bind (finds_totalSize _ _ _) fun _ _ _ _ =>
      finds_bind (finds_totalSize _ _ _) fun _ _ _ _ =>
        finds_bind (finds_quiet .now .ok rfl rfl) fun _ _ _ _ => finds_pure trivial

theorem finds_touchAll (kind : EntryKind) (at_ : Time) (ds : List Digest) :
    Finds seen (touchAll kind at_ ds) fun _ _ => True := by
  induction ds generalizing seen with
  | nil => exact finds_pure trivial
  | cons d ds ih =>
    exact finds_bind (finds_quiet (.touch kind d at_) id rfl rfl) fun _ _ _ _ => ih

theorem finds_materialize (id : WorkorderId) (target : StagedTarget) (d : Digest) :
    Finds seen (materializeBlobForDigest id target d) fun _ _ => True :=
  finds_quiet (.materialize id target d) (fun r => r) rfl rfl

theorem finds_stageRepoEntries (id : WorkorderId) (base : List String)
    (entries : List (String × SnapshotEntry)) :
    Finds seen (stageRepoEntries id base entries) fun _ _ => True := by
  induction entries generalizing seen with
  | nil => exact finds_pure trivial
  | cons e es ih =>
    exact finds_bind (finds_fromExcept _) fun _ _ _ _ =>
      finds_bind (finds_materialize _ _ _) fun _ _ _ _ => ih

theorem finds_stageRepos (id : WorkorderId) (repos : List (String × RepoSnapshotManifest))
    (refs : BTreeMap (BTreeMap Digest)) (trees : BTreeMap Digest) :
    Finds seen (stageRepos id repos refs trees) fun _ _ => True := by
  induction repos generalizing seen refs trees with
  | nil => exact finds_pure trivial
  | cons repo repos ih =>
    refine finds_bind (finds_fromExcept _) fun _ _ _ _ =>
      finds_bind (finds_stageRepoEntries _ _ _) fun _ _ _ _ => ?_
    split
    · exact ih _ _
    · exact finds_bind (finds_storeTree _) fun _ _ _ _ =>
        finds_bind (finds_checkTree _ _ _) fun _ _ _ _ => ih _ _

theorem finds_stageDistfiles (id : WorkorderId) (entries : List (String × SnapshotEntry))
    (refs : BTreeMap Digest) : Finds seen (stageDistfiles id entries refs) fun _ _ => True := by
  induction entries generalizing seen refs with
  | nil => exact finds_pure trivial
  | cons e es ih =>
    exact finds_bind (finds_fromExcept _) fun _ _ _ _ =>
      finds_bind (finds_materialize _ _ _) fun _ _ _ _ => ih _

theorem finds_stageWorkorderRuntime (id : WorkorderId) (config : PortageConfig) :
    Finds seen (stageWorkorderRuntime id config) fun _ _ => True :=
  finds_bind (finds_quiet (.clearRuntimeDir id) (fun r => r) rfl rfl)
    fun _ _ _ _ => finds_bind finds_effectiveSnapshotManifest fun _ _ _ _ =>
    finds_bind (finds_stageRepos _ _ _ _) fun _ _ _ _ =>
    finds_bind (finds_stageDistfiles _ _ _) fun _ _ _ _ =>
    finds_bind (finds_quiet (.writeWorkorderJson id _) (fun r => r) rfl rfl)
      fun _ _ _ _ => finds_bind (finds_collectSnapshotReferences _) fun _ _ _ _ =>
    finds_bind (finds_bind (finds_touchAll _ _ _) fun _ _ _ _ => finds_touchAll _ _ _)
      fun _ _ _ _ => finds_pure trivial

theorem finds_ingestBlobs (id : WorkorderId) (ds : List Digest) :
    Finds seen (ingestBlobs id ds) fun _ _ => True := by
  induction ds generalizing seen with
  | nil => exact finds_pure trivial
  | cons d ds ih =>
    exact finds_bind (finds_quiet (.readOutputBlob id d) (fun r => r) rfl rfl)
      fun _ _ _ _ => finds_bind (finds_storeBlobForDigest _ _) fun _ _ _ _ => ih

theorem finds_ingestFinalStateParity (id : WorkorderId) :
    Finds seen (ingestFinalStateParity id) fun _ _ => True :=
  finds_bind (finds_quiet (.readParityManifest id) (fun r => r) rfl rfl)
    fun _ _ _ _ => finds_bind (finds_ingestBlobs _ _) fun _ _ _ _ =>
    finds_bind (finds_ingestBlobs _ _) fun _ _ _ _ => finds_pure trivial

theorem finds_ingestFetchedDistfiles (id : WorkorderId) :
    Finds seen (ingestFetchedDistfiles id) fun _ _ => True :=
  finds_bind (finds_quiet (.readDistfileManifest id) (fun r => r) rfl rfl)
    fun _ _ _ _ => finds_bind (finds_ingestBlobs _ _) fun _ _ _ _ => finds_pure trivial

end

section
variable (config : ServerConfig) (active : List SnapshotReferenceSet) (now : Time)

/-- A cleanup pass leaves the entry alone: a staged workorder references it, or
its last reference is younger than both cutoffs. -/
def spared (kind : EntryKind) (record : Digest × StoredMetadata) : Bool :=
  match hoursBefore now config.snapshotCacheGracePeriodHours,
      hoursBefore now config.snapshotCacheHardDeleteHours with
  | some graceCutoff, some hardDeleteCutoff =>
    active.any (fun references => references.has kind record.1) ||
      (hardDeleteCutoff < record.2.lastReferencedAt && graceCutoff < record.2.lastReferencedAt)
  | _, _ => true

def unsparedKeys (kind : EntryKind) (records : List (Digest × StoredMetadata)) : List Key :=
  (records.filter fun record => !spared config active now kind record).map fun record =>
    (kind,record.1)

def collectedNext (collected : List Key) (o : StoreOp) (r : StoreRes o) : List Key :=
  match o, r with
  | .listMetadata kind, .ok records => collected++unsparedKeys config active now kind records
  | _, _ => collected

def collectMonitor : Monitor StoreOp StoreRes (List Key) where
  allows collected o := ∀ key, o.deletes = some key → key ∈ collected
  next := collectedNext config active now

def planKeys (plan : CleanupPlan) : List Key :=
  (plan.hardDelete++plan.floorEligible).map fun entry => (entry.kind,entry.digest)

variable {config active now}

theorem planKeys_collectRecord {graceCutoff hardDeleteCutoff : Time}
    (cuts : Cutoffs config now graceCutoff hardDeleteCutoff)
    (kind : EntryKind) (plan : CleanupPlan) (record : Digest × StoredMetadata) (key : Key)
    (hk : key ∈ planKeys (collectRecord active graceCutoff hardDeleteCutoff kind plan record)) :
    key ∈ planKeys plan ∨ key ∈ unsparedKeys config active now kind [record] := by
  have listed (hactive : ¬ active.any fun references => references.has kind record.1)
      (hold : record.2.lastReferencedAt ≤ hardDeleteCutoff ∨
        record.2.lastReferencedAt ≤ graceCutoff) :
      (kind,record.1) ∈ unsparedKeys config active now kind [record] := by
    have h : spared config active now kind record = false := by
      simp only [spared,cuts.grace,cuts.hard,hactive,Bool.false_or]
      simpa only [Bool.and_eq_false_iff,decide_eq_false_iff_not,not_lt] using hold
    simp [unsparedKeys,h]
  unfold collectRecord at hk
  dsimp only at hk
  split at hk
  · exact .inl hk
  · next hactive =>
    split at hk
    · next hold =>
      simp only [planKeys,List.map_append,List.mem_append,List.map_cons,List.map_nil,
        List.mem_singleton] at hk
      rcases hk with (hk | hk) | hk
      · exact .inl (by simp [planKeys,hk])
      · exact .inr (hk ▸ listed hactive (.inl hold))
      · exact .inl (by simp [planKeys,hk])
    · split at hk
      · next hold =>
        simp only [planKeys,List.map_append,List.mem_append,List.map_cons,List.map_nil,
          List.mem_singleton] at hk
        rcases hk with hk | hk | hk
        · exact .inl (by simp [planKeys,hk])
        · exact .inl (by simp [planKeys,hk])
        · exact .inr (hk ▸ listed hactive (.inr hold))
      · exact .inl hk

theorem planKeys_foldl {graceCutoff hardDeleteCutoff : Time}
    (cuts : Cutoffs config now graceCutoff hardDeleteCutoff)
    (kind : EntryKind) (records : List (Digest × StoredMetadata)) (plan : CleanupPlan) (key : Key)
    (hk : key ∈ planKeys (records.foldl
      (collectRecord active graceCutoff hardDeleteCutoff kind) plan)) :
    key ∈ planKeys plan ∨ key ∈ unsparedKeys config active now kind records := by
  induction records generalizing plan with
  | nil => exact .inl hk
  | cons record records ih =>
    have split : ∀ {k : Key}, k ∈ unsparedKeys config active now kind [record] ∨
        k ∈ unsparedKeys config active now kind records →
        k ∈ unsparedKeys config active now kind (record::records) := by
      intro k h
      simp only [unsparedKeys,List.filter_cons] at h ⊢
      split at h <;> simp_all
    rcases ih _ hk with h | h
    · rcases planKeys_collectRecord cuts kind plan record key h with h | h
      · exact .inl h
      · exact .inr (split (.inl h))
    · exact .inr (split (.inr h))

variable {collected : List Key}

def DeletesFrom {α : Type} (config : ServerConfig) (active : List SnapshotReferenceSet)
    (now : Time) (collected : List Key) (x : StoreProg α) : Prop :=
  Conforms (collectMonitor config active now) (fun c _ => c = collected) collected (outcome x)

theorem deletesFrom_bind {α β : Type} {x : StoreProg α} {f : α → StoreProg β}
    (hx : DeletesFrom config active now collected x)
    (hf : ∀ a, DeletesFrom config active now collected (f a)) :
    DeletesFrom config active now collected (x >>= f) := by
  unfold DeletesFrom
  rw [outcome_bind]
  refine conforms_bind hx ?_
  intro c r hc
  subst hc
  cases r with
  | ok a => exact hf a
  | error e => rfl

theorem deletesFrom_entry (entry : CleanupEntry) (summary : SnapshotCleanupSummary)
    (h : (entry.kind,entry.digest) ∈ collected) :
    DeletesFrom config active now collected (deleteCleanupEntry entry summary) := by
  refine deletesFrom_bind ⟨fun key hk => ?_,fun _ => rfl⟩ fun _ => ?_
  · cases hk
    exact h
  · cases entry.kind <;> exact rfl

theorem deletesFrom_whileAbove (floor : ℕ) (entries : List CleanupEntry) (total : ℕ)
    (summary : SnapshotCleanupSummary)
    (h : ∀ entry ∈ entries, (entry.kind,entry.digest) ∈ collected) :
    DeletesFrom config active now collected (deleteWhileAbove floor entries total summary) := by
  induction entries generalizing total summary with
  | nil => exact rfl
  | cons entry entries ih =>
    unfold deleteWhileAbove
    split
    · exact rfl
    · exact deletesFrom_bind (deletesFrom_entry entry summary (h entry List.mem_cons_self))
        fun _ => ih _ _ fun e he => h e (List.mem_cons_of_mem _ he)

theorem deletesFrom_deleteCollected (plan : CleanupPlan)
    (h : ∀ key ∈ planKeys plan, key ∈ collected) :
    DeletesFrom config active now collected (deleteCollected config plan) := by
  have sorted : ∀ {entries : List CleanupEntry},
      (∀ e ∈ entries, e ∈ plan.hardDelete++plan.floorEligible) →
      ∀ e ∈ entries.insertionSort byLastReferenced, (e.kind,e.digest) ∈ collected := by
    intro entries hin e he
    have hm := (List.mem_insertionSort byLastReferenced).mp he
    exact h _ (List.mem_map.mpr ⟨e,hin e hm,rfl⟩)
  unfold deleteCollected
  dsimp only
  split
  · exact rfl
  · refine deletesFrom_bind (deletesFrom_whileAbove _ _ _ _ (sorted fun e he => ?_)) fun _ => ?_
    · exact List.mem_append_left _ he
    · refine deletesFrom_bind (deletesFrom_whileAbove _ _ _ _ (sorted fun e he => ?_)) fun _ => rfl
      exact List.mem_append_right _ he

theorem conforms_collectCleanup :
    Conforms (collectMonitor config active now) (fun c r => match r with
      | .ok (some plan) => ∀ key ∈ planKeys plan, key ∈ c
      | _ => True) [] (outcome (collectCleanup config active now)) := by
  unfold collectCleanup
  split
  · next graceCutoff hardDeleteCutoff hg hh =>
    refine ⟨(fun key hk => by cases hk),fun blobs => ?_⟩
    cases blobs with
    | error e => trivial
    | ok blobs =>
      refine ⟨(fun key hk => by cases hk),fun trees => ?_⟩
      cases trees with
      | error e => trivial
      | ok trees =>
        intro key hk
        rcases planKeys_foldl ⟨hg,hh⟩ .tree trees _ key hk with h | h
        · rcases planKeys_foldl ⟨hg,hh⟩ .blob blobs _ key h with h | h
          · cases h
          · exact List.mem_append_left _ (List.mem_append_right _ h)
        · exact List.mem_append_right _ h
  · trivial

theorem cleanup_deletes_unspared :
    Conforms (collectMonitor config active now) (fun _ _ => True) []
      (outcome (cleanupSnapshotStorageAt config active now)) := by
  unfold cleanupSnapshotStorageAt
  rw [outcome_bind]
  refine conforms_bind conforms_collectCleanup ?_
  intro c r hr
  cases r with
  | error e => trivial
  | ok plan =>
    cases plan with
    | none => trivial
    | some plan =>
      have hd : DeletesFrom config active now c (deleteCollected config plan >>= fun summary =>
          pure (some summary)) :=
        deletesFrom_bind (deletesFrom_deleteCollected plan hr) fun _ => rfl
      exact conforms_mono hd fun _ _ _ => trivial

end

variable {env : Codecs} {w : StoreOracle} {s s' : StoredEntries} {key : Key} {o : StoreOp}
  {r : StoreRes o}

theorem storeEffect_of_sem (hs : storeSem env o w s = some (s',r)) :
    (storeEffect env w s o = (s',r)) ∨ ∃ f, storeFailed o f = some r := by
  unfold storeSem at hs
  split at hs
  · exact .inl (Option.some.inj hs)
  · next f _ =>
    obtain ⟨r',hr,he⟩ := Option.map_eq_some_iff.mp hs
    cases he
    exact .inr ⟨f,hr⟩

variable {digest : Digest} {now : Time}

theorem present_of_entryEffect {α : Type} {kind : EntryKind} {missing : Failure}
    {found : StoredMetadata → StoredEntries × Except Failure α} {a : α}
    (h : entryEffect s kind digest missing found = (s',.ok a)) (hf : ∀ m, (found m).1 = s) :
    Present s' (kind,digest) := by
  unfold entryEffect at h
  split at h
  · cases h
  · split at h
    · cases h
    · next m hm =>
      have hs : s = s' := (hf m).symm.trans (congrArg Prod.fst h)
      subst hs
      simp [Present,hm]

theorem present_of_storeBlobEffect {bytes : Bytes} {new : Bool}
    (h : storeBlobEffect env now digest bytes s = (s',.ok new)) : Present s' (.blob,digest) := by
  unfold storeBlobEffect at h
  split at h
  · cases h
  · split at h
    · cases h
    · split at h
      · cases h
        exact present_insert_self _ _
      · split at h
        · cases h
        · cases h
          exact present_insert_self _ _

theorem present_of_reported (hs : storeSem env o w s = some (s',r)) (hk : reported o r = some key) :
    Present s' key := by
  have effect : storeEffect env w s o = (s',r) := by
    rcases storeEffect_of_sem hs with h | ⟨f,h⟩
    · exact h
    · -- A failed call reports nothing.
      cases o <;> cases h <;> cases hk
  unfold reported at hk
  split at hk <;> cases hk
  · exact present_of_entryEffect effect fun _ => rfl
  · exact present_of_entryEffect effect fun _ => rfl
  · next bytes d =>
    obtain ⟨hst,hr⟩ := Prod.mk.inj effect
    cases hstored : storeBlobEffect env w.time (env.sha256 bytes) bytes s with
    | mk t stored =>
      rw [hstored] at hst hr
      cases stored with
      | error e => cases hr
      | ok new =>
        cases hst
        cases hr
        exact present_of_storeBlobEffect hstored
  · exact present_of_storeBlobEffect effect
  · cases effect
    exact present_insert_self _ _

theorem stored_of_collectedNext {config : ServerConfig} {active : List SnapshotReferenceSet}
    {collected : List Key} (hs : storeSem env o w s = some (s',r))
    (hk : key ∈ collectedNext config active now collected o r) :
    key ∈ collected ∨ (o = .listMetadata key.1 ∧
      ∃ m, s.lookup key = some m ∧ spared config active now key.1 (key.2,m) = false) := by
  unfold collectedNext at hk
  split at hk
  · next kind records =>
    rcases List.mem_append.mp hk with hk | hk
    · exact .inl hk
    · right
      have effect : storeEffect env w s (.listMetadata kind) = (s',.ok records) := by
        rcases storeEffect_of_sem hs with h | ⟨f,h⟩
        · exact h
        · cases h
      obtain ⟨⟨digest,m⟩,hm,rfl⟩ := List.mem_map.mp hk
      obtain ⟨hrec,hsp⟩ := List.mem_filter.mp hm
      cases effect
      obtain ⟨e,he,hp⟩ := List.mem_filterMap.mp hrec
      simp only [Option.ite_none_right_eq_some,Option.some.injEq] at hp
      obtain ⟨rfl,hp⟩ := hp
      cases hp
      exact ⟨rfl,e.2,AList.mem_lookup_iff.mpr he,by simpa using hsp⟩
  · exact .inl hk

end Remerge.SnapshotUse
