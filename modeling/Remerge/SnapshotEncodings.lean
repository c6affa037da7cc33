import Remerge.SnapshotCollections

/-!
# Three encodings of one snapshot

Normalisation turns every configuration that stands for a collection into the
maps the client computes itself, and a normalised configuration into itself. So
it does not matter whether a client sends its snapshots inline, by a manifest
or by references.
-/

set_option autoImplicit false

namespace Remerge.SnapshotEncodings
open StepProgram SnapshotTypes SnapshotStore SnapshotRuntime SnapshotUse SnapshotCollections

section
variable {env : Codecs} {c : Collection} {config : PortageConfig} {s : StoredEntries}

/-- The configuration stands for the collection: what it says is true, its
manifest included, and everything in the collection is named somewhere. -/
structure Stands (env : Codecs) (c : Collection) (config : PortageConfig) : Prop
    extends Encodes env c config where
  version : config.snapshotManifest.version = snapshotManifestVersionV1
  repos : ∀ (name : String) (repo : RepoSnapshotManifest),
    config.snapshotManifest.repoSnapshots[name]? = some repo → RepoFits env c name repo
  distfiles : ∀ (name : String) (entry : SnapshotEntry),
    config.snapshotManifest.distfiles[name]? = some entry → DistfileFits env c name entry.digest
  allRepos : ∀ name : String, name ∈ c.repos → RepoNamed config config.snapshotManifest name
  allDistfiles : ∀ name : String, name ∈ c.distfiles →
    DistfileNamed config config.snapshotManifest name

theorem mem_repoNames (config : PortageConfig) (name : String) :
    name ∈ repoNames config ↔ RepoNamed config config.snapshotManifest name := by
  unfold repoNames RepoNamed
  rw [mem_keySet]
  simp only [List.mem_append,Std.TreeMap.mem_keys,or_assoc]

theorem mem_distfileNames (config : PortageConfig) (name : String) :
    name ∈ distfileNames config ↔ DistfileNamed config config.snapshotManifest name := by
  unfold distfileNames DistfileNamed
  rw [mem_keySet]
  simp only [List.mem_append,Std.TreeMap.mem_keys,or_assoc]

/-- A manifest of the collection in which every repository has its tree digest. -/
structure Rendered (env : Codecs) (c : Collection) (m : SnapshotManifest) : Prop
    extends ManifestOf env c m where
  signed : ∀ (name : String) (repo : RepoSnapshotManifest) (files : BTreeMap String),
    m.repoSnapshots[name]? = some repo → c.repos[name]? = some files →
    repo.treeDigest = ownTree env files

structure Preserves (config : PortageConfig) (m : SnapshotManifest) : Prop where
  repos : ∀ (name : String) (old : RepoSnapshotManifest), config.repoSnapshots[name]? = none →
    config.snapshotManifest.repoSnapshots[name]? = some old →
    ∃ repo, m.repoSnapshots[name]? = some repo ∧ repo.entries = old.entries
  distfiles : ∀ (name : String) (old : SnapshotEntry), config.distfileSnapshots[name]? = none →
    config.snapshotManifest.distfiles[name]? = some old → m.distfiles[name]? = some old

theorem mem_of_getElem? {ν : Type} {t : BTreeMap ν} {k : String} {v : ν} (h : t[k]? = some v) :
    k ∈ t := by
  rw [Std.TreeMap.mem_iff_isSome_getElem?,h]
  rfl

theorem exists_of_mem {ν : Type} {t : BTreeMap ν} {k : String} (h : k ∈ t) : ∃ v, t[k]? = some v :=
  Option.isSome_iff_exists.mp (Std.TreeMap.mem_iff_isSome_getElem?.mp h)

theorem Stands.mem_repos (h : Stands env c config) {name : String}
    (hn : RepoNamed config config.snapshotManifest name) : name ∈ c.repos := by
  rcases hn with hn | hn | hn
  · obtain ⟨files,hf⟩ := exists_of_mem hn
    exact mem_of_getElem? (h.inline name files hf)
  · obtain ⟨refs,hf⟩ := exists_of_mem hn
    obtain ⟨files,hc,-⟩ := h.refs name refs hf
    exact mem_of_getElem? hc
  · obtain ⟨repo,hf⟩ := exists_of_mem hn
    obtain ⟨files,hc,-⟩ := h.repos name repo hf
    exact mem_of_getElem? hc

theorem Stands.reposDone (h : Stands env c config) :
    ReposDone env c config [] config.snapshotManifest where
  version := rfl
  distfiles := rfl
  fits := h.repos
  signed := fun name hn => absurd hn (by simp)
  kept := fun _ old _ ho => ⟨old,ho,rfl⟩

theorem succeeds_effective (h : Stands env c config) (hs : AllStored env c s) :
    Succeeds (servedStore env) (effectiveSnapshotManifest config)
      (fun s' m => AllStored env c s' ∧ Rendered env c m ∧ Preserves config m) s := by
  unfold effectiveSnapshotManifest
  dsimp only
  rw [if_neg (by simp [h.version])]
  refine succeeds_bind (succeeds_addRepos h.toEncodes (repoNames config) [] _ h.reposDone
    (fun name hn => ?_) hs) fun s1 m1 h1 => ?_
  · rw [mem_repoNames] at hn
    exact ⟨hn,h.mem_repos hn⟩
  obtain ⟨hs1,done,hd,hall,-⟩ := h1
  have hstart : DistfilesDone env c config m1 m1 :=
    ⟨rfl,rfl,by rw [hd.distfiles]; exact h.distfiles,fun _ hn => hn,fun _ _ _ ho => ho⟩
  refine succeeds_mono (succeeds_addDistfiles h.toEncodes (distfileNames config) m1 m1 hstart
    (fun name hn => ?_) hs1) ?_
  · rw [mem_distfileNames] at hn
    unfold DistfileNamed
    rw [hd.distfiles]
    exact hn
  rintro s2 m ⟨hs2,hf,hnames,-⟩
  refine ⟨hs2,?_,?_⟩
  · refine ⟨⟨?_,?_,hf.fits,?_,?_⟩,?_⟩
    · rw [hf.version,hd.version,h.version]
    · rw [hf.repos]
      exact hd.fits
    · intro name hn
      obtain ⟨files,repo,-,hr,-⟩ :=
        hd.signed name (hall name ((mem_repoNames _ _).mpr (h.allRepos name hn)))
      rw [hf.repos]
      exact mem_of_getElem? hr
    · intro name hn
      exact hnames name ((mem_distfileNames _ _).mpr (h.allDistfiles name hn))
    · intro name repo files hr hc
      rw [hf.repos] at hr
      obtain ⟨files',repo',hc',hr',ht⟩ := hd.signed name
        (hall name ((mem_repoNames _ _).mpr (h.allRepos name (mem_of_getElem? hc))))
      rw [hr,Option.some.injEq] at hr'
      rw [hc,Option.some.injEq] at hc'
      rw [hr',hc',ht]
  · refine ⟨?_,?_⟩
    · rw [hf.repos]
      exact hd.kept
    · rw [← hd.distfiles]
      exact hf.kept

theorem succeeds_normalize (h : Stands env c config) (hs : AllStored env c s) :
    Succeeds (servedStore env) (normalizePortageConfigSnapshots config)
      (fun s' config' => AllStored env c s' ∧
        ∃ m, config' = withManifest m ∧ Rendered env c m ∧ Preserves config m) s := by
  refine succeeds_bind (succeeds_effective h hs) fun s1 m h1 => ?_
  exact succeeds_pure ⟨h1.1,m,rfl,h1.2⟩

variable {m : SnapshotManifest}

theorem Rendered.getElem?_repos (h : Rendered env c m) (name : String) :
    m.repoSnapshots[name]?.map (fun repo => ((refsOf repo.entries).toList,repo.treeDigest)) =
      c.repos[name]?.map fun files => ((snapshotRefs env files).toList,ownTree env files) := by
  cases hr : m.repoSnapshots[name]? with
  | some repo =>
    obtain ⟨files,hc,hl,-⟩ := h.repos name repo hr
    rw [hc,Option.map_some,Option.map_some,h.signed name repo files hr hc,hl]
  | none =>
    have hn : name ∉ c.repos := by
      intro hc
      obtain ⟨repo,he⟩ := exists_of_mem (h.allRepos name hc)
      rw [hr] at he
      cases he
    rw [Std.TreeMap.getElem?_eq_none hn]
    rfl

theorem Rendered.getElem?_distfiles (h : Rendered env c m) (name : String) :
    m.distfiles[name]?.map (·.digest) = c.distfiles[name]?.map (sha256Hex env) := by
  cases he : m.distfiles[name]? with
  | some entry =>
    obtain ⟨bytes,hc,hd⟩ := h.distfiles name entry he
    rw [hc,Option.map_some,Option.map_some,hd]
  | none =>
    have hn : name ∉ c.distfiles := by
      intro hc
      obtain ⟨entry,hs⟩ := exists_of_mem (h.allDistfiles name hc)
      rw [he] at hs
      cases hs
    rw [Std.TreeMap.getElem?_eq_none hn]
    rfl

theorem Rendered.snapshotMaps_eq (h : Rendered env c m) :
    snapshotMaps (withManifest m) = clientMaps env c := by
  have hrepos : (m.repoSnapshots.map fun _ repo =>
        ((refsOf repo.entries).toList,repo.treeDigest)).toList =
      (c.repos.map fun _ files => ((snapshotRefs env files).toList,ownTree env files)).toList := by
    rw [toList_eq_iff]
    intro name
    rw [Std.TreeMap.getElem?_map,Std.TreeMap.getElem?_map]
    exact h.getElem?_repos name
  have hdist : (refsOf m.distfiles).toList =
      (computeDistfileSnapshotRefs env c.distfiles).toList := by
    rw [toList_eq_iff]
    intro name
    rw [getElem?_refsOf,computeDistfileSnapshotRefs,Std.TreeMap.getElem?_map]
    exact h.getElem?_distfiles name
  rw [Std.TreeMap.toList_map,Std.TreeMap.toList_map] at hrepos
  have hrefs := congrArg (List.map fun e => (e.1,e.2.1)) hrepos
  have htrees := congrArg (List.map fun e => (e.1,e.2.2)) hrepos
  simp only [List.map_map] at hrefs htrees
  simp only [snapshotMaps,clientMaps,withManifest,computeRepoSnapshotRefs,
    computeRepoSnapshotTrees,Std.TreeMap.toList_map,List.map_map,SnapshotMaps.mk.injEq]
  exact ⟨hrefs,htrees,hdist⟩

theorem Rendered.stands (h : Rendered env c m) :
    Stands env c (withManifest m) where
  inline := fun name files hf => by simp [withManifest] at hf
  refs := by
    intro name refs hr
    obtain ⟨repo,hrepo,rfl⟩ := Option.map_eq_some_iff.mp ((getElem?_mapped _ _ _).symm.trans hr)
    obtain ⟨files,hc,hl,-⟩ := h.repos name repo hrepo
    exact ⟨files,hc,hl⟩
  trees := by
    intro name files digest hc hd
    obtain ⟨repo,hrepo,rfl⟩ := Option.map_eq_some_iff.mp ((getElem?_mapped _ _ _).symm.trans hd)
    exact .inr (h.signed name repo files hrepo hc)
  inlineDistfiles := fun name bytes hb => by simp [withManifest] at hb
  distfileRefs := by
    intro name digest hd
    obtain ⟨entry,he,rfl⟩ := Option.map_eq_some_iff.mp ((getElem?_mapped _ _ _).symm.trans hd)
    exact h.distfiles name entry he
  version := h.version
  repos := h.repos
  distfiles := h.distfiles
  allRepos := fun name hn => .inr (.inr (h.allRepos name hn))
  allDistfiles := fun name hn => .inr (.inr (h.allDistfiles name hn))

theorem Rendered.same {m' : SnapshotManifest} (h : Rendered env c m) (h' : Rendered env c m')
    (hp : Preserves (withManifest m) m') : SameManifest m' m := by
  refine ⟨h'.version.trans h.version.symm,?_,?_⟩
  · rw [toList_eq_iff]
    intro name
    have hq := (h'.getElem?_repos name).trans (h.getElem?_repos name).symm
    cases hr : m.repoSnapshots[name]? with
    | none =>
      rw [hr,Option.map_none,Option.map_eq_none_iff] at hq
      exact hq
    | some repo =>
      obtain ⟨repo',hr',he⟩ := hp.repos name repo (by simp [withManifest]) hr
      rw [hr,hr',Option.map_some,Option.map_some,Option.some.injEq,Prod.mk.injEq] at hq
      rw [hr']
      obtain ⟨t,e⟩ := repo
      obtain ⟨t',e'⟩ := repo'
      simp only at he hq
      rw [he,hq.2]
  · rw [toList_eq_iff]
    intro name
    have hq := (h'.getElem?_distfiles name).trans (h.getElem?_distfiles name).symm
    cases he : m.distfiles[name]? with
    | none =>
      rw [he,Option.map_none,Option.map_eq_none_iff] at hq
      exact hq
    | some entry => exact hp.distfiles name entry (by simp [withManifest]) he

variable {trees : BTreeMap Digest}

theorem stands_inlinePayloads (ht : TreesAnnounced env c trees) :
    Stands env c (inlinePayloads c trees) where
  inline := fun _ _ h => h
  refs := fun name refs h => by simp [inlinePayloads,PortageConfig.default] at h
  trees := ht
  inlineDistfiles := fun _ _ h => h
  distfileRefs := fun name d h => by simp [inlinePayloads,PortageConfig.default] at h
  version := rfl
  repos := fun name repo h => by
    simp [inlinePayloads,PortageConfig.default,SnapshotManifest.default] at h
  distfiles := fun name entry h => by
    simp [inlinePayloads,PortageConfig.default,SnapshotManifest.default] at h
  allRepos := fun _ h => .inl h
  allDistfiles := fun _ h => .inl h

theorem stands_manifestOnly (h : ManifestOf env c m) :
    Stands env c (manifestOnly m) where
  inline := fun name files h => by simp [manifestOnly,PortageConfig.default] at h
  refs := fun name refs h => by simp [manifestOnly,PortageConfig.default] at h
  trees := fun name files d _ h => by simp [manifestOnly,PortageConfig.default] at h
  inlineDistfiles := fun name bytes h => by simp [manifestOnly,PortageConfig.default] at h
  distfileRefs := fun name d h => by simp [manifestOnly,PortageConfig.default] at h
  version := h.version
  repos := h.repos
  distfiles := h.distfiles
  allRepos := fun name hn => .inr (.inr (h.allRepos name hn))
  allDistfiles := fun name hn => .inr (.inr (h.allDistfiles name hn))

theorem stands_refsMaps (ht : TreesAnnounced env c trees) :
    Stands env c (refsMaps env c trees) where
  inline := fun name files h => by simp [refsMaps,PortageConfig.default] at h
  refs := by
    intro name refs h
    obtain ⟨files,hc,rfl⟩ := Option.map_eq_some_iff.mp ((getElem?_mapped _ _ _).symm.trans h)
    exact ⟨files,hc,rfl⟩
  trees := ht
  inlineDistfiles := fun name bytes h => by simp [refsMaps,PortageConfig.default] at h
  distfileRefs := by
    intro name digest h
    obtain ⟨bytes,hc,rfl⟩ := Option.map_eq_some_iff.mp ((getElem?_mapped _ _ _).symm.trans h)
    exact ⟨bytes,hc,rfl⟩
  version := rfl
  repos := fun name repo h => by
    simp [refsMaps,PortageConfig.default,SnapshotManifest.default] at h
  distfiles := fun name entry h => by
    simp [refsMaps,PortageConfig.default,SnapshotManifest.default] at h
  allRepos := fun _ h => .inr (.inl (Std.TreeMap.mem_map.mpr h))
  allDistfiles := fun _ h => .inr (.inl (Std.TreeMap.mem_map.mpr h))

end

/-- Whichever of the three encodings a collection is sent in, normalisation
succeeds with the client's own maps, and normalising once more, in this or any
other store that has the blobs, changes nothing. -/
theorem snapshot_encodings_interchangeable (env : Codecs) (c : Collection)
    (trees : BTreeMap Digest) (manifest : SnapshotManifest) (config : PortageConfig)
    (s : StoredEntries) (ht : TreesAnnounced env c trees) (hm : ManifestOf env c manifest)
    (hs : AllStored env c s) (hc : config = inlinePayloads c trees ∨
      config = manifestOnly manifest ∨ config = refsMaps env c trees) :
    (∃ s1 r, Runs (servedStore env) (outcome (normalizePortageConfigSnapshots config)) s s1 r) ∧
    Succeeds (servedStore env) (normalizePortageConfigSnapshots config) (fun s1 config1 =>
      snapshotMaps config1 = clientMaps env c ∧ AllStored env c s1 ∧
      ∀ s', AllStored env c s' →
        Succeeds (servedStore env) (normalizePortageConfigSnapshots config1) (fun _ config2 =>
          snapshotMaps config2 = snapshotMaps config1 ∧
          SameManifest config2.snapshotManifest config1.snapshotManifest) s') s := by
  have hstands : Stands env c config := by
    rcases hc with rfl | rfl | rfl
    · exact stands_inlinePayloads ht
    · exact stands_manifestOnly hm
    · exact stands_refsMaps ht
  have total : ∀ o s, ∃ w s' r, servedStore env o w s = some (s',r) :=
    fun o s => ⟨⟨0,none,ParityManifest.default,∅,[]⟩,_,_,rfl⟩
  refine ⟨exists_runs total _ s,succeeds_mono (succeeds_normalize hstands hs) ?_⟩
  rintro s1 config1 ⟨hs1,m,rfl,hr,-⟩
  refine ⟨hr.snapshotMaps_eq,hs1,fun s' hs' => ?_⟩
  refine succeeds_mono (succeeds_normalize hr.stands hs') ?_
  rintro s2 config2 ⟨-,m',rfl,hr',hp⟩
  exact ⟨hr'.snapshotMaps_eq.trans hr.snapshotMaps_eq.symm,hr.same hr' hp⟩

def sampleCollection : Collection where
  repos := (∅ : BTreeMap (BTreeMap String)).insert "overlay" ((∅ : BTreeMap String).insert "a" "a")
  distfiles := (∅ : BTreeMap Bytes).insert "b" [98]
  nonempty := by
    intro name files h
    rw [Std.TreeMap.getElem?_insert] at h
    split at h
    · cases h
      exact Std.TreeMap.isEmpty_insert
    · simp at h

def sampleManifest : SnapshotManifest where
  version := snapshotManifestVersionV1
  repoSnapshots := (∅ : BTreeMap RepoSnapshotManifest).insert "overlay"
    ⟨"",(∅ : BTreeMap SnapshotEntry).insert "a" ⟨sampleSha256 [97],1,0⟩⟩
  distfiles := (∅ : BTreeMap SnapshotEntry).insert "b" ⟨sampleSha256 [98],1,0⟩

def sampleStore : StoredEntries :=
  ((∅ : StoredEntries).insert (.blob,sampleSha256 [97]) ⟨sampleSha256 [97],1,0,none⟩).insert
    (.blob,sampleSha256 [98]) ⟨sampleSha256 [98],1,0,none⟩

variable {ν : Type} {k k' : String} {v : ν}

theorem getElem?_single {v' : ν} (h : ((∅ : BTreeMap ν).insert k v)[k']? = some v') :
    k = k' ∧ v = v' := by
  rw [Std.TreeMap.getElem?_insert] at h
  split at h
  · next he => exact ⟨Std.LawfulEqCmp.eq_of_compare he,Option.some.inj h⟩
  · simp at h

theorem mem_single : k' ∈ (∅ : BTreeMap ν).insert k v ↔ k = k' := by
  rw [Std.TreeMap.mem_insert,Std.LawfulEqCmp.compare_eq_iff_eq]
  simp

theorem stored_sample {bytes : Bytes} (h : bytes = [97] ∨ bytes = [98]) :
    Stored plainCodecs sampleStore bytes := by
  rcases h with rfl | rfl
  · exact ⟨⟨sampleSha256 [97],1,0,none⟩,by decide,rfl,rfl⟩
  · exact ⟨⟨sampleSha256 [98],1,0,none⟩,by decide,rfl,rfl⟩

theorem allStored_sample : AllStored plainCodecs sampleCollection sampleStore where
  texts := by
    intro name files path text hn hp
    obtain ⟨-,rfl⟩ := getElem?_single hn
    obtain ⟨-,rfl⟩ := getElem?_single hp
    exact stored_sample (.inl (by decide +kernel))
  distfiles := by
    intro name bytes h
    obtain ⟨-,rfl⟩ := getElem?_single h
    exact stored_sample (.inr rfl)

theorem manifestOf_sample : ManifestOf plainCodecs sampleCollection sampleManifest where
  version := rfl
  repos := by
    intro name repo h
    obtain ⟨rfl,rfl⟩ := getElem?_single h
    refine ⟨_,Std.TreeMap.getElem?_insert_self,?_,.inl rfl⟩
    unfold NamesFiles
    decide +kernel
  distfiles := by
    intro name entry h
    obtain ⟨rfl,rfl⟩ := getElem?_single h
    exact ⟨_,Std.TreeMap.getElem?_insert_self,rfl⟩
  allRepos := fun name h => mem_single.mpr (mem_single.mp h)
  allDistfiles := fun name h => mem_single.mpr (mem_single.mp h)

/-- Without tree digests, each of the three encodings of the sample. -/
theorem sample_encodings_interchangeable :
    Succeeds (servedStore plainCodecs)
        (normalizePortageConfigSnapshots (inlinePayloads sampleCollection ∅))
        (fun _ config' => snapshotMaps config' = clientMaps plainCodecs sampleCollection)
        sampleStore ∧
      Succeeds (servedStore plainCodecs)
        (normalizePortageConfigSnapshots (manifestOnly sampleManifest))
        (fun _ config' => snapshotMaps config' = clientMaps plainCodecs sampleCollection)
        sampleStore ∧
      Succeeds (servedStore plainCodecs)
        (normalizePortageConfigSnapshots (refsMaps plainCodecs sampleCollection ∅))
        (fun _ config' => snapshotMaps config' = clientMaps plainCodecs sampleCollection)
        sampleStore := by
  have h := fun config hc => snapshot_encodings_interchangeable plainCodecs sampleCollection ∅
    sampleManifest config sampleStore (fun name files d _ hd => by simp at hd) manifestOf_sample
    allStored_sample hc
  exact ⟨succeeds_mono (h _ (by simp)).2 fun _ _ h' => h'.1,
    succeeds_mono (h _ (by simp)).2 fun _ _ h' => h'.1,
    succeeds_mono (h _ (by simp)).2 fun _ _ h' => h'.1⟩

end Remerge.SnapshotEncodings
