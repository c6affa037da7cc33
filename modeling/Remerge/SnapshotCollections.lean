import Remerge.SnapshotUse

/-!
# Collections of snapshots

What a client wants a build to see: repositories with their files, and
distfiles. It may send them inline, by a manifest or by references; `Encodes`
says that a configuration tells the truth about a collection in any mixture of
the three. With the blobs in the store, the loops that make the manifest then
succeed and enter every repository with the client's own tree digest.
-/

set_option autoImplicit false

namespace Remerge.SnapshotCollections
open StepProgram SnapshotTypes SnapshotStore SnapshotRuntime SnapshotUse

variable {s s' : StoredEntries} {config : PortageConfig} {m : SnapshotManifest} {name : String}

theorem toList_eq_iff {ν : Type} (a b : BTreeMap ν) :
    a.toList = b.toList ↔ ∀ k : String, a[k]? = b[k]? := by
  constructor
  · intro h k
    exact (Std.TreeMap.equiv_iff_toList_eq.mpr h).getElem?_eq
  · intro h
    exact (Std.TreeMap.Equiv.of_forall_constGet?_eq h).toList_eq

section
variable (env : Codecs)

abbrev asBytes (text : String) : Bytes := text.toUTF8.toList

def sha256Hex (bytes : Bytes) : Digest := env.sha256 bytes

def snapshotRefs (snapshot : BTreeMap String) : BTreeMap Digest :=
  snapshot.map fun _ content => sha256Hex env (asBytes content)

def computeRepoSnapshotRefs (repoSnapshots : BTreeMap (BTreeMap String)) :
    BTreeMap (BTreeMap Digest) :=
  repoSnapshots.map fun _ snapshot => snapshotRefs env snapshot

/-- `PortageReader::tree_digest`: the client's own `TreeManifest` has the one
field of the server's. -/
def clientTreeDigest (entries : BTreeMap Digest) : Digest :=
  sha256Hex env (env.treeJson entries.toList)

def computeRepoSnapshotTrees (repoSnapshotRefs : BTreeMap (BTreeMap Digest)) : BTreeMap Digest :=
  repoSnapshotRefs.map fun _ refs => clientTreeDigest env refs

def computeDistfileSnapshotRefs (distfileSnapshots : BTreeMap Bytes) : BTreeMap Digest :=
  distfileSnapshots.map fun _ bytes => sha256Hex env bytes

end

structure Collection where
  repos : BTreeMap (BTreeMap String)
  distfiles : BTreeMap Bytes
  nonempty : ∀ (name : String) (files : BTreeMap String),
    repos[name]? = some files → files.isEmpty = false

/-- The three maps of a configuration, each as its entries in order. -/
structure SnapshotMaps where
  repoSnapshotRefs : List (String × List (String × Digest))
  repoSnapshotTrees : List (String × Digest)
  distfileSnapshotRefs : List (String × Digest)
  deriving DecidableEq

def snapshotMaps (config : PortageConfig) : SnapshotMaps where
  repoSnapshotRefs := config.repoSnapshotRefs.toList.map fun e => (e.1,e.2.toList)
  repoSnapshotTrees := config.repoSnapshotTrees.toList
  distfileSnapshotRefs := config.distfileSnapshotRefs.toList

def SameManifest (m m' : SnapshotManifest) : Prop :=
  m.version = m'.version ∧ m.repoSnapshots.toList = m'.repoSnapshots.toList ∧
    m.distfiles.toList = m'.distfiles.toList

section
variable (env : Codecs) (c : Collection)

def ownTree (files : BTreeMap String) : Digest := clientTreeDigest env (snapshotRefs env files)

def Announces (files : BTreeMap String) (digest : Digest) : Prop :=
  digest = "" ∨ digest = ownTree env files

def NamesFiles (entries : BTreeMap SnapshotEntry) (files : BTreeMap String) : Prop :=
  (refsOf entries).toList = (snapshotRefs env files).toList

def clientMaps : SnapshotMaps :=
  snapshotMaps { PortageConfig.default with
    repoSnapshotRefs := computeRepoSnapshotRefs env c.repos
    repoSnapshotTrees := computeRepoSnapshotTrees env (computeRepoSnapshotRefs env c.repos)
    distfileSnapshotRefs := computeDistfileSnapshotRefs env c.distfiles }

def TreesAnnounced (trees : BTreeMap Digest) : Prop :=
  ∀ (name : String) (files : BTreeMap String) (digest : Digest), c.repos[name]? = some files →
    trees[name]? = some digest → Announces env files digest

def inlinePayloads (trees : BTreeMap Digest) : PortageConfig :=
  { PortageConfig.default with
    repoSnapshots := c.repos
    distfileSnapshots := c.distfiles
    repoSnapshotTrees := trees }

def refsMaps (trees : BTreeMap Digest) : PortageConfig :=
  { PortageConfig.default with
    repoSnapshotRefs := computeRepoSnapshotRefs env c.repos
    distfileSnapshotRefs := computeDistfileSnapshotRefs env c.distfiles
    repoSnapshotTrees := trees }

def manifestOnly (manifest : SnapshotManifest) : PortageConfig :=
  { PortageConfig.default with snapshotManifest := manifest }

def RepoFits (name : String) (repo : RepoSnapshotManifest) : Prop :=
  ∃ files, c.repos[name]? = some files ∧ NamesFiles env repo.entries files ∧
    Announces env files repo.treeDigest

def DistfileFits (name : String) (digest : Digest) : Prop :=
  ∃ bytes, c.distfiles[name]? = some bytes ∧ digest = sha256Hex env bytes

structure ManifestOf (m : SnapshotManifest) : Prop where
  version : m.version = snapshotManifestVersionV1
  repos : ∀ (name : String) (repo : RepoSnapshotManifest),
    m.repoSnapshots[name]? = some repo → RepoFits env c name repo
  distfiles : ∀ (name : String) (entry : SnapshotEntry),
    m.distfiles[name]? = some entry → DistfileFits env c name entry.digest
  allRepos : ∀ name : String, name ∈ c.repos → name ∈ m.repoSnapshots
  allDistfiles : ∀ name : String, name ∈ c.distfiles → name ∈ m.distfiles

/-- What the configuration says outside its manifest is true of the collection. -/
structure Encodes (config : PortageConfig) : Prop where
  inline : ∀ (name : String) (files : BTreeMap String),
    config.repoSnapshots[name]? = some files → c.repos[name]? = some files
  refs : ∀ (name : String) (refs : BTreeMap Digest), config.repoSnapshotRefs[name]? = some refs →
    ∃ files, c.repos[name]? = some files ∧ refs.toList = (snapshotRefs env files).toList
  trees : TreesAnnounced env c config.repoSnapshotTrees
  inlineDistfiles : ∀ (name : String) (bytes : Bytes),
    config.distfileSnapshots[name]? = some bytes → c.distfiles[name]? = some bytes
  distfileRefs : ∀ (name : String) (digest : Digest),
    config.distfileSnapshotRefs[name]? = some digest → DistfileFits env c name digest

end

section
variable {env : Codecs}

def Stored (env : Codecs) (s : StoredEntries) (bytes : Bytes) : Prop :=
  ∃ m, s.lookup (.blob,env.sha256 bytes) = some m ∧ m.canonicalDigest = env.sha256 bytes ∧
    m.rawSizeBytes = bytes.length

def Keeps (env : Codecs) (s s' : StoredEntries) : Prop :=
  ∀ bytes, Stored env s bytes → Stored env s' bytes

theorem keeps_insert_tree (digest : Digest) (m : StoredMetadata) :
    Keeps env s (s.insert (.tree,digest) m) := by
  rintro bytes ⟨m',hm,h⟩
  refine ⟨m',?_,h⟩
  rw [AList.lookup_insert_ne (by simp)]
  exact hm

theorem keeps_refreshed {digest : Digest} {old : StoredMetadata} (bytes : Bytes) (now : Time)
    (hold : s.lookup (.blob,digest) = some old) :
    Keeps env s (s.insert (.blob,digest) (refreshed env digest bytes now (some old))) := by
  rintro bytes' ⟨m,hm,hd,hl⟩
  by_cases he : env.sha256 bytes' = digest
  · subst he
    rw [hold] at hm
    cases hm
    exact ⟨_,AList.lookup_insert _,hd,hl⟩
  · refine ⟨m,?_,hd,hl⟩
    rw [AList.lookup_insert_ne (by simpa using he)]
    exact hm

variable {bytes : Bytes}

theorem succeeds_call {α : Type} {x : StoreProg α} (o : StoreOp)
    (answer : StoreRes o → Except Failure α) (hx : outcome x = .step o fun r => .ret (answer r))
    {post : StoredEntries → α → Prop}
    (h : ∀ w, ∃ a, answer (storeEffect env w s o).2 = .ok a ∧ post (storeEffect env w s o).1 a) :
    Succeeds (servedStore env) x post s := by
  unfold Succeeds
  rw [hx]
  intro w s' r hs
  have he : storeEffect env w s o = (s',r) := Option.some.inj hs
  obtain ⟨a,ha,hp⟩ := h w
  rw [he] at ha hp
  exact ⟨a,ha,hp⟩

theorem succeeds_ensureBlobExists (h : Stored env s bytes) :
    Succeeds (servedStore env) (ensureBlobExists (env.sha256 bytes)) (fun s' _ => s' = s) s := by
  obtain ⟨m,hm,-⟩ := h
  refine succeeds_call (.ensureBlobExists (env.sha256 bytes)) id rfl fun w => ⟨(),?_⟩
  simp [storeEffect,entryEffect,env.sha256_valid,hm]

theorem succeeds_loadBlobMetadata (h : Stored env s bytes) :
    Succeeds (servedStore env) (loadBlobMetadata (env.sha256 bytes)) (fun s' _ => s' = s) s := by
  obtain ⟨m,hm,-⟩ := h
  refine succeeds_call (.loadBlobMetadata (env.sha256 bytes)) id rfl fun w => ⟨m,?_⟩
  simp [storeEffect,entryEffect,env.sha256_valid,hm]

theorem succeeds_storeBlob (h : Stored env s bytes) :
    Succeeds (servedStore env) (storeBlob bytes)
      (fun s' d => Keeps env s s' ∧ d = env.sha256 bytes) s := by
  obtain ⟨m,hm,hd,hl⟩ := h
  refine succeeds_call (.storeBlob bytes) id rfl fun w => ⟨env.sha256 bytes,?_⟩
  have hstep : storeBlobEffect env w.time (env.sha256 bytes) bytes s =
      (s.insert (.blob,env.sha256 bytes)
        (refreshed env (env.sha256 bytes) bytes w.time (some m)),.ok false) := by
    simp [storeBlobEffect,env.sha256_valid,hm,metadataMismatch,hd,hl]
  simp only [storeEffect,hstep]
  exact ⟨rfl,keeps_refreshed bytes w.time hm,trivial⟩

theorem succeeds_storeTree (entries : BTreeMap Digest) :
    Succeeds (servedStore env) (storeTree entries)
      (fun s' d => Keeps env s s' ∧ d = clientTreeDigest env entries) s :=
  succeeds_call (.storeTree entries) id rfl fun _ => ⟨_,rfl,keeps_insert_tree _ _,rfl⟩

theorem succeeds_checkTree (repoName : String) (expected : Option Digest) (stored : Digest)
    (h : ∀ d, expected = some d → d = stored) :
    Succeeds (servedStore env) (checkTree repoName expected stored) (fun s' _ => s' = s) s := by
  unfold checkTree
  split
  · next d =>
    rw [if_neg (by simp [h d rfl])]
    exact succeeds_pure rfl
  · exact succeeds_pure rfl

end

structure AllStored (env : Codecs) (c : Collection) (s : StoredEntries) : Prop where
  texts : ∀ (name : String) (files : BTreeMap String) (path text : String),
    c.repos[name]? = some files → files[path]? = some text → Stored env s (asBytes text)
  distfiles : ∀ (name : String) (bytes : Bytes), c.distfiles[name]? = some bytes →
    Stored env s bytes

section
variable {env : Codecs} {c : Collection}

theorem AllStored.keeps (h : AllStored env c s) (hk : Keeps env s s') : AllStored env c s' :=
  ⟨fun name files path text hn hp => hk _ (h.texts name files path text hn hp),
    fun name bytes hb => hk _ (h.distfiles name bytes hb)⟩

variable {ν : Type} {d : Digest} {new : BTreeMap SnapshotEntry}

theorem getElem?_mapped {μ : Type} (f : ν → μ) (t : BTreeMap ν) (k : String) :
    (t.map fun _ v => f v)[k]? = t[k]?.map f := Std.TreeMap.getElem?_map

theorem getElem?_refsOf (entries : BTreeMap SnapshotEntry) (path : String) :
    (refsOf entries)[path]? = entries[path]?.map (·.digest) := getElem?_mapped _ _ _

theorem getElem?_snapshotRefs (files : BTreeMap String) (path : String) :
    (snapshotRefs env files)[path]? = files[path]?.map fun t => sha256Hex env (asBytes t) :=
  getElem?_mapped _ _ _

theorem namesFiles_iff (entries : BTreeMap SnapshotEntry) (files : BTreeMap String) :
    NamesFiles env entries files ↔ ∀ path : String, entries[path]?.map (·.digest) =
      files[path]?.map fun t => sha256Hex env (asBytes t) := by
  unfold NamesFiles
  rw [toList_eq_iff]
  simp only [getElem?_refsOf,getElem?_snapshotRefs]

variable {entries : BTreeMap SnapshotEntry} {files : BTreeMap String}

theorem clientTreeDigest_of_namesFiles (h : NamesFiles env entries files) :
    clientTreeDigest env (refsOf entries) = ownTree env files := by
  unfold ownTree clientTreeDigest
  rw [h]

theorem digest_stored (hs : AllStored env c s) (hc : c.repos[name]? = some files)
    (h : NamesFiles env entries files) (hd : d ∈ digestsOf entries) :
    ∃ bytes, d = env.sha256 bytes ∧ Stored env s bytes := by
  obtain ⟨⟨path,e⟩,he,rfl⟩ := List.mem_map.mp hd
  have hl := (namesFiles_iff entries files).mp h path
  rw [Std.TreeMap.mem_toList_iff_getElem?_eq_some.mp he,Option.map_some,eq_comm,
    Option.map_eq_some_iff] at hl
  obtain ⟨text,ht,hd⟩ := hl
  exact ⟨asBytes text,hd.symm,hs.texts name files path text hc ht⟩

theorem succeeds_ensureBlobsExist (ds : List Digest)
    (h : ∀ d ∈ ds, ∃ bytes, d = env.sha256 bytes ∧ Stored env s bytes) :
    Succeeds (servedStore env) (ensureBlobsExist ds) (fun s' _ => s' = s) s := by
  induction ds with
  | nil => exact succeeds_pure rfl
  | cons d ds ih =>
    obtain ⟨bytes,rfl,hb⟩ := h d (by simp)
    refine succeeds_bind (succeeds_ensureBlobExists hb) fun s1 _ h1 => ?_
    subst h1
    exact ih fun d' hd => h d' (by simp [hd])

def Filled (target : String → Option Digest) (paths : List String)
    (old new : BTreeMap SnapshotEntry) : Prop :=
  ∀ path : String, new[path]?.map (·.digest) =
    if path ∈ paths then target path else old[path]?.map (·.digest)

theorem Filled.cons {target : String → Option Digest} {paths : List String} {path : String}
    {e : SnapshotEntry} {old : BTreeMap SnapshotEntry} (he : target path = some e.digest)
    (h : Filled target paths (old.insert path e) new) : Filled target (path::paths) old new := by
  intro path'
  rw [h path',Std.TreeMap.getElem?_insert]
  by_cases hp : path = path'
  · subst hp
    simp [he]
  · have hc : compare path path' ≠ .eq := fun h => hp (Std.LawfulEqCmp.eq_of_compare h)
    rw [if_neg hc]
    simp [Ne.symm hp]

theorem Filled.nil (target : String → Option Digest) (old : BTreeMap SnapshotEntry) :
    Filled target [] old old := fun _ => by simp

theorem Filled.all {files : BTreeMap ν} {digest : ν → Digest}
    (h : Filled (fun path => files[path]?.map digest) (files.toList.map Prod.fst) ∅ new)
    (path : String) : new[path]?.map (·.digest) = files[path]?.map digest := by
  rw [h path,Std.TreeMap.map_fst_toList_eq_keys]
  split
  · rfl
  · next hn =>
    rw [Std.TreeMap.mem_keys] at hn
    rw [Std.TreeMap.getElem?_eq_none hn]
    rfl

theorem succeeds_loadReferencedEntries (target : String → Option Digest)
    (refs : List (String × Digest)) (entries : BTreeMap SnapshotEntry)
    (ht : ∀ e ∈ refs, target e.1 = some e.2)
    (h : ∀ e ∈ refs, ∃ bytes, e.2 = env.sha256 bytes ∧ Stored env s bytes) :
    Succeeds (servedStore env) (loadReferencedEntries refs entries)
      (fun s' r => s' = s ∧ Filled target (refs.map Prod.fst) entries r) s := by
  induction refs generalizing entries with
  | nil => exact succeeds_pure ⟨rfl,Filled.nil _ _⟩
  | cons ref refs ih =>
    obtain ⟨path,d⟩ := ref
    obtain ⟨bytes,hd,hb⟩ := h (path,d) (by simp)
    simp only at hd
    subst hd
    refine succeeds_bind (succeeds_loadBlobMetadata hb) fun s1 metadata h1 => ?_
    subst h1
    refine succeeds_mono (ih _ (fun e he => ht e (by simp [he])) fun e he => h e (by simp [he]))
      fun s2 r hr => ⟨hr.1,?_⟩
    exact Filled.cons (ht (path,env.sha256 bytes) (by simp)) hr.2

theorem succeeds_storeInlineEntries (he : Encodes env c config) (hc : c.repos[name]? = some files)
    (existing : Option RepoSnapshotManifest) (texts : List (String × String))
    (entries : BTreeMap SnapshotEntry) (ht : ∀ e ∈ texts, files[e.1]? = some e.2)
    (hs : AllStored env c s) :
    Succeeds (servedStore env) (storeInlineEntries config name existing texts entries)
      (fun s' r => AllStored env c s' ∧
        Filled (fun path => files[path]?.map fun t => sha256Hex env (asBytes t))
          (texts.map Prod.fst) entries r) s := by
  induction texts generalizing entries s with
  | nil => exact succeeds_pure ⟨hs,Filled.nil _ _⟩
  | cons file texts ih =>
    obtain ⟨path,content⟩ := file
    have hf : files[path]? = some content := ht (path,content) (by simp)
    refine succeeds_bind (succeeds_storeBlob (hs.texts name files path content hc hf))
      fun s1 d hd => ?_
    obtain ⟨hk,rfl⟩ := hd
    have hexpected : ∀ d, (config.repoSnapshotRefs[name]?.bind fun refs => refs[path]?) = some d →
        d = env.sha256 (asBytes content) := by
      intro d hd
      obtain ⟨refs,hr,hp⟩ := Option.bind_eq_some_iff.mp hd
      obtain ⟨files',hc',hl⟩ := he.refs name refs hr
      rw [hc,Option.some.injEq] at hc'
      subst hc'
      rw [(toList_eq_iff _ _).mp hl path,getElem?_snapshotRefs,hf,Option.map_some,
        Option.some.injEq] at hp
      exact hp.symm
    have hany : (config.repoSnapshotRefs[name]?.bind fun refs => refs[path]?).any
        (· ≠ env.sha256 (asBytes content)) = false := by
      rw [Option.any_eq_false]
      intro d hd
      simp [hexpected d hd]
    dsimp only
    rw [if_neg (by rw [hany]; exact Bool.false_ne_true)]
    refine succeeds_mono (ih _ (fun e he => ht e (by simp [he])) (hs.keeps hk))
      fun s2 r hr => ⟨hr.1,?_⟩
    refine Filled.cons ?_ hr.2
    rw [hf]
    rfl

def RepoNamed (config : PortageConfig) (m : SnapshotManifest) (name : String) : Prop :=
  name ∈ config.repoSnapshots ∨ name ∈ config.repoSnapshotRefs ∨ name ∈ m.repoSnapshots

theorem announced_own {digest : Option Digest} (h : ∀ d, digest = some d → Announces env files d)
    (hd : announced digest = some d) : d = ownTree env files := by
  obtain ⟨hs,hn⟩ := Option.filter_eq_some_iff.mp hd
  rcases h d hs with he | he
  · simp [he] at hn
  · exact he

theorem announces_map {existing : Option RepoSnapshotManifest}
    (h : ∀ repo, existing = some repo → Announces env files repo.treeDigest) (d : Digest)
    (hd : existing.map (·.treeDigest) = some d) : Announces env files d := by
  obtain ⟨repo,hr,rfl⟩ := Option.map_eq_some_iff.mp hd
  exact h repo hr

theorem succeeds_tree {refs : BTreeMap Digest} {expected : Option Digest}
    {post : StoredEntries → RepoSnapshotManifest → Prop} (hs : AllStored env c s)
    (ht : clientTreeDigest env refs = ownTree env files)
    (hx : ∀ d, expected = some d → d = ownTree env files)
    (hp : ∀ s', AllStored env c s' → post s' ⟨ownTree env files,entries⟩) :
    Succeeds (servedStore env) (do
      let tree ← storeTree refs
      checkTree name expected tree
      pure ⟨tree,entries⟩) post s := by
  refine succeeds_bind (succeeds_storeTree _) fun s2 tree h2 => ?_
  obtain ⟨hk,rfl⟩ := h2
  rw [ht]
  refine succeeds_bind (succeeds_checkTree _ _ _ hx) fun s3 _ h3 => ?_
  subst h3
  exact succeeds_pure (hp _ (hs.keeps hk))

theorem succeeds_buildRepo (he : Encodes env c config)
    (hm : ∀ (name : String) (repo : RepoSnapshotManifest),
      m.repoSnapshots[name]? = some repo → RepoFits env c name repo)
    (hc : c.repos[name]? = some files)
    (hn : RepoNamed config m name) (hs : AllStored env c s) :
    Succeeds (servedStore env) (buildRepoSnapshotManifest config m name)
      (fun s' repo => AllStored env c s' ∧ NamesFiles env repo.entries files ∧
        repo.treeDigest = ownTree env files ∧ (config.repoSnapshots[name]? = none →
          ∀ old, m.repoSnapshots[name]? = some old → repo.entries = old.entries)) s := by
  have hfits : ∀ repo, m.repoSnapshots[name]? = some repo →
      NamesFiles env repo.entries files ∧ Announces env files repo.treeDigest := by
    intro repo hr
    obtain ⟨files',hc',hl,ha⟩ := hm name repo hr
    rw [hc,Option.some.injEq] at hc'
    exact hc' ▸ ⟨hl,ha⟩
  have htrees : ∀ d, config.repoSnapshotTrees[name]? = some d → Announces env files d :=
    fun d hd => he.trees name files d hc hd
  unfold buildRepoSnapshotManifest
  cases hfiles : config.repoSnapshots[name]? with
  | some files' =>
    have hsame := he.inline name files' hfiles
    rw [hc,Option.some.injEq] at hsame
    subst hsame
    dsimp only
    refine succeeds_bind (succeeds_storeInlineEntries he hc _ _ ∅
      (fun e h => Std.TreeMap.mem_toList_iff_getElem?_eq_some.mp h) hs) fun s1 entries h1 => ?_
    have hl : NamesFiles env entries files := (namesFiles_iff entries files).mpr h1.2.all
    refine succeeds_tree h1.1 (clientTreeDigest_of_namesFiles hl) (fun d hd => ?_)
      fun _ h => ⟨h,hl,rfl,fun h => by cases h⟩
    rcases Option.or_eq_some_iff.mp hd with hd | ⟨-,hd⟩
    · exact announced_own (announces_map fun repo hr => (hfits repo hr).2) hd
    · exact announced_own htrees hd
  | none =>
    cases hold : m.repoSnapshots[name]? with
    | some repo =>
      obtain ⟨hl,ha⟩ := hfits repo hold
      dsimp only
      refine succeeds_bind (succeeds_ensureBlobsExist _ fun d hd => digest_stored hs hc hl hd)
        fun s1 _ h1 => ?_
      subst h1
      refine succeeds_tree hs (clientTreeDigest_of_namesFiles hl)
        (fun d hd => announced_own (fun d' hd' => Option.some.inj hd' ▸ ha) hd)
        fun _ h => ⟨h,hl,rfl,fun _ old ho => ?_⟩
      cases ho
      rfl
    | none =>
      cases hrefs : config.repoSnapshotRefs[name]? with
      | some refs =>
        obtain ⟨files',hc',hr⟩ := he.refs name refs hrefs
        rw [hc,Option.some.injEq] at hc'
        subst hc'
        have hget := (toList_eq_iff _ _).mp hr
        dsimp only
        refine succeeds_bind (succeeds_loadReferencedEntries (fun path => refs[path]?.map id)
          refs.toList ∅ (fun e h => ?_) fun e h => ?_) fun s1 entries h1 => ?_
        · rw [Std.TreeMap.mem_toList_iff_getElem?_eq_some.mp h]
          rfl
        · have hp := Std.TreeMap.mem_toList_iff_getElem?_eq_some.mp h
          rw [hget,getElem?_snapshotRefs,Option.map_eq_some_iff] at hp
          obtain ⟨text,ht,hd⟩ := hp
          exact ⟨asBytes text,hd.symm,hs.texts name files e.1 text hc ht⟩
        · obtain ⟨rfl,hfill⟩ := h1
          have hl : NamesFiles env entries files := (namesFiles_iff entries files).mpr fun path => by
            rw [hfill.all path,Option.map_id,id,hget,getElem?_snapshotRefs]
          have ht : clientTreeDigest env refs = ownTree env files := by
            unfold ownTree clientTreeDigest
            rw [hr]
          exact succeeds_tree hs ht (fun d hd => announced_own htrees hd)
            fun _ h => ⟨h,hl,rfl,fun _ old ho => by cases ho⟩
      | none =>
        exfalso
        simp [RepoNamed,Std.TreeMap.mem_iff_isSome_getElem?,hfiles,hrefs,hold] at hn

theorem isEmpty_of_namesFiles (hc : c.repos[name]? = some files)
    (h : NamesFiles env entries files) :
    entries.isEmpty = false := by
  have hn := c.nonempty name files hc
  by_contra hb
  rw [Bool.not_eq_false] at hb
  have hl : files.toList = [] := by
    rw [List.eq_nil_iff_forall_not_mem]
    intro e hm
    have hp := (namesFiles_iff entries files).mp h e.1
    rw [Std.TreeMap.mem_toList_iff_getElem?_eq_some.mp hm,Std.TreeMap.getElem?_of_isEmpty hb] at hp
    cases hp
  rw [← Std.TreeMap.isEmpty_toList,hl] at hn
  cases hn

structure ReposDone (env : Codecs) (c : Collection) (config : PortageConfig) (done : List String)
    (m : SnapshotManifest) : Prop where
  version : m.version = config.snapshotManifest.version
  distfiles : m.distfiles = config.snapshotManifest.distfiles
  fits : ∀ (name : String) (repo : RepoSnapshotManifest),
    m.repoSnapshots[name]? = some repo → RepoFits env c name repo
  signed : ∀ name ∈ done, ∃ files repo, c.repos[name]? = some files ∧
    m.repoSnapshots[name]? = some repo ∧ repo.treeDigest = ownTree env files
  kept : ∀ (name : String) (old : RepoSnapshotManifest), config.repoSnapshots[name]? = none →
    config.snapshotManifest.repoSnapshots[name]? = some old →
    ∃ repo, m.repoSnapshots[name]? = some repo ∧ repo.entries = old.entries

theorem ReposDone.insert {done : List String}
    {repo : RepoSnapshotManifest} (h : ReposDone env c config done m)
    (hc : c.repos[name]? = some files) (hl : NamesFiles env repo.entries files)
    (ht : repo.treeDigest = ownTree env files)
    (hk : config.repoSnapshots[name]? = none →
      ∀ old, m.repoSnapshots[name]? = some old → repo.entries = old.entries) :
    ReposDone env c config (name::done)
      { m with repoSnapshots := m.repoSnapshots.insert name repo } where
  version := h.version
  distfiles := h.distfiles
  fits := by
    intro name' repo' hr
    rw [Std.TreeMap.getElem?_insert] at hr
    split at hr
    · next he =>
      cases hr
      rw [← Std.LawfulEqCmp.eq_of_compare he]
      exact ⟨files,hc,hl,.inr ht⟩
    · exact h.fits name' repo' hr
  signed := by
    intro name' hn
    by_cases he : name = name'
    · subst he
      exact ⟨files,repo,hc,Std.TreeMap.getElem?_insert_self,ht⟩
    · obtain ⟨files',repo',hc',hr',ht'⟩ := h.signed name' (List.mem_of_ne_of_mem (Ne.symm he) hn)
      refine ⟨files',repo',hc',?_,ht'⟩
      rw [Std.TreeMap.getElem?_insert,if_neg fun hq => he (Std.LawfulEqCmp.eq_of_compare hq)]
      exact hr'
  kept := by
    intro name' old hi ho
    obtain ⟨repo',hr',he'⟩ := h.kept name' old hi ho
    by_cases he : name = name'
    · subst he
      exact ⟨repo,Std.TreeMap.getElem?_insert_self,(hk hi repo' hr').trans he'⟩
    · refine ⟨repo',?_,he'⟩
      rw [Std.TreeMap.getElem?_insert,if_neg fun hq => he (Std.LawfulEqCmp.eq_of_compare hq)]
      exact hr'

theorem succeeds_addRepos (he : Encodes env c config) (names done : List String)
    (m : SnapshotManifest) (h : ReposDone env c config done m)
    (hn : ∀ name ∈ names, RepoNamed config m name ∧ name ∈ c.repos) (hs : AllStored env c s) :
    Succeeds (servedStore env) (addRepos config names m) (fun s' m' => AllStored env c s' ∧
      ∃ done', ReposDone env c config done' m' ∧ (∀ name ∈ names, name ∈ done') ∧
        ∀ name ∈ done, name ∈ done') s := by
  induction names generalizing done m s with
  | nil => exact succeeds_pure ⟨hs,done,h,by simp,fun _ hd => hd⟩
  | cons name names ih =>
    obtain ⟨hnamed,hmem⟩ := hn name (by simp)
    obtain ⟨files,hc⟩ := Option.isSome_iff_exists.mp (Std.TreeMap.mem_iff_isSome_getElem?.mp hmem)
    refine succeeds_bind (succeeds_buildRepo he h.fits hc hnamed hs) fun s1 repo h1 => ?_
    obtain ⟨hs1,hl,ht,hk⟩ := h1
    rw [if_neg (by simp [isEmpty_of_namesFiles hc hl])]
    refine succeeds_mono (ih (name::done) _ (h.insert hc hl ht hk) (fun x hx => ?_) hs1) ?_
    · obtain ⟨hx1,hx2⟩ := hn x (by simp [hx])
      refine ⟨?_,hx2⟩
      rcases hx1 with hx1 | hx1 | hx1
      · exact .inl hx1
      · exact .inr (.inl hx1)
      · exact .inr (.inr (Std.TreeMap.mem_insert.mpr (.inr hx1)))
    · rintro s2 m2 ⟨h2,done',hd,hall,hold⟩
      refine ⟨h2,done',hd,?_,fun x hx => hold x (by simp [hx])⟩
      intro x hx
      rcases List.mem_cons.mp hx with rfl | hx
      · exact hold x (by simp)
      · exact hall x hx

end

variable {env : Codecs} {c : Collection}

def DistfileNamed (config : PortageConfig) (m : SnapshotManifest) (name : String) : Prop :=
  name ∈ config.distfileSnapshots ∨ name ∈ config.distfileSnapshotRefs ∨ name ∈ m.distfiles

theorem DistfileFits.stored {digest : Digest} (h : DistfileFits env c name digest)
    (hs : AllStored env c s) : ∃ bytes, digest = env.sha256 bytes ∧ Stored env s bytes := by
  obtain ⟨bytes,hb,hd⟩ := h
  exact ⟨bytes,hd,hs.distfiles name bytes hb⟩

theorem succeeds_buildDistfile (he : Encodes env c config)
    (hm : ∀ (name : String) (entry : SnapshotEntry),
      m.distfiles[name]? = some entry → DistfileFits env c name entry.digest)
    (hn : DistfileNamed config m name) (hs : AllStored env c s) :
    Succeeds (servedStore env) (buildDistfileSnapshotEntry config m name)
      (fun s' r => AllStored env c s' ∧ ∃ entry, r = some entry ∧
        DistfileFits env c name entry.digest ∧ (config.distfileSnapshots[name]? = none →
          ∀ old, m.distfiles[name]? = some old → entry = old)) s := by
  unfold buildDistfileSnapshotEntry
  cases hbytes : config.distfileSnapshots[name]? with
  | some bytes =>
    have hc := he.inlineDistfiles name bytes hbytes
    dsimp only
    refine succeeds_bind (succeeds_storeBlob (hs.distfiles name bytes hc)) fun s1 d hd => ?_
    obtain ⟨hk,rfl⟩ := hd
    have hany : (config.distfileSnapshotRefs[name]?).any (· ≠ env.sha256 bytes) = false := by
      rw [Option.any_eq_false]
      intro d hd
      obtain ⟨bytes',hc',rfl⟩ := he.distfileRefs name d hd
      rw [hc,Option.some.injEq] at hc'
      simp [hc',sha256Hex]
    rw [if_neg (by rw [hany]; exact Bool.false_ne_true)]
    exact succeeds_pure ⟨hs.keeps hk,_,rfl,⟨bytes,hc,rfl⟩,fun h => by cases h⟩
  | none =>
    cases hold : m.distfiles[name]? with
    | some entry =>
      obtain ⟨bytes,hd,hb⟩ := (hm name entry hold).stored hs
      dsimp only
      rw [hd]
      refine succeeds_bind (succeeds_ensureBlobExists hb) fun s1 _ h1 => ?_
      subst h1
      refine succeeds_pure ⟨hs,entry,rfl,hm name entry hold,fun _ old ho => ?_⟩
      exact Option.some.inj ho
    | none =>
      cases hrefs : config.distfileSnapshotRefs[name]? with
      | some digest =>
        have hf := he.distfileRefs name digest hrefs
        obtain ⟨bytes,rfl,hb⟩ := hf.stored hs
        dsimp only
        refine succeeds_bind (succeeds_loadBlobMetadata hb) fun s1 metadata h1 => ?_
        subst h1
        exact succeeds_pure ⟨hs,_,rfl,hf,fun _ old ho => by cases ho⟩
      | none =>
        exfalso
        simp [DistfileNamed,Std.TreeMap.mem_iff_isSome_getElem?,hbytes,hrefs,hold] at hn

structure DistfilesDone (env : Codecs) (c : Collection) (config : PortageConfig)
    (start m : SnapshotManifest) : Prop where
  version : m.version = start.version
  repos : m.repoSnapshots = start.repoSnapshots
  fits : ∀ (name : String) (entry : SnapshotEntry),
    m.distfiles[name]? = some entry → DistfileFits env c name entry.digest
  grown : ∀ name : String, name ∈ start.distfiles → name ∈ m.distfiles
  kept : ∀ (name : String) (old : SnapshotEntry), config.distfileSnapshots[name]? = none →
    start.distfiles[name]? = some old → m.distfiles[name]? = some old

theorem DistfilesDone.insert {start : SnapshotManifest} {entry : SnapshotEntry}
    (h : DistfilesDone env c config start m) (hf : DistfileFits env c name entry.digest)
    (hk : config.distfileSnapshots[name]? = none →
      ∀ old, m.distfiles[name]? = some old → entry = old) :
    DistfilesDone env c config start { m with distfiles := m.distfiles.insert name entry } where
  version := h.version
  repos := h.repos
  fits := by
    intro name' entry' he
    rw [Std.TreeMap.getElem?_insert] at he
    split at he
    · next hq =>
      cases he
      rw [← Std.LawfulEqCmp.eq_of_compare hq]
      exact hf
    · exact h.fits name' entry' he
  grown := fun name' hn => Std.TreeMap.mem_insert.mpr (.inr (h.grown name' hn))
  kept := by
    intro name' old hi ho
    have hm := h.kept name' old hi ho
    rw [Std.TreeMap.getElem?_insert]
    split
    · next hq =>
      have he := Std.LawfulEqCmp.eq_of_compare hq
      subst he
      rw [hk hi old hm]
    · exact hm

theorem succeeds_addDistfiles (he : Encodes env c config) (names : List String)
    (start m : SnapshotManifest) (h : DistfilesDone env c config start m)
    (hn : ∀ name ∈ names, DistfileNamed config m name) (hs : AllStored env c s) :
    Succeeds (servedStore env) (addDistfiles config names m) (fun s' m' => AllStored env c s' ∧
      DistfilesDone env c config start m' ∧ (∀ name ∈ names, name ∈ m'.distfiles) ∧
        ∀ name : String, name ∈ m.distfiles → name ∈ m'.distfiles) s := by
  induction names generalizing m s with
  | nil => exact succeeds_pure ⟨hs,h,by simp,fun _ hd => hd⟩
  | cons name names ih =>
    refine succeeds_bind (succeeds_buildDistfile he h.fits (hn name (by simp)) hs) fun s1 r h1 => ?_
    obtain ⟨hs1,entry,rfl,hf,hk⟩ := h1
    refine succeeds_mono (ih _ (h.insert hf hk) (fun x hx => ?_) hs1) ?_
    · rcases hn x (by simp [hx]) with hx | hx | hx
      · exact .inl hx
      · exact .inr (.inl hx)
      · exact .inr (.inr (Std.TreeMap.mem_insert.mpr (.inr hx)))
    · rintro s2 m2 ⟨h2,hd,hall,hold⟩
      refine ⟨h2,hd,?_,fun x hx => hold x (Std.TreeMap.mem_insert.mpr (.inr hx))⟩
      intro x hx
      rcases List.mem_cons.mp hx with rfl | hx
      · exact hold x (by simp)
      · exact hall x hx

end Remerge.SnapshotCollections
