import Remerge.FileNames
import Remerge.SnapshotRuntime

/-!
# Reading a worker's output

A worker leaves two manifests and a directory of blobs in its parity mount. The
server opens `blobs/<digest>` for every digest of a manifest and hands what it
read to the store, which then checks the digest. The path is joined from the
digest's text, so that an absolute digest replaces it, `..` leads out of the
directory, and a link is followed.
-/

set_option autoImplicit false

namespace Remerge.OutputIngest
open StepProgram SnapshotTypes SnapshotStore SnapshotRuntime StagingPaths PathWalk FileNames
open Hierarchy

abbrev FilePath : Type := List FileName

def nameParity : FileName := ⟨"parity",by decide⟩
def nameBlobs : FileName := ⟨"blobs",by decide⟩
def nameManifest : FileName := ⟨"manifest.json",by decide⟩
def nameDistfiles : FileName := ⟨"distfiles.json",by decide⟩

def parityRuntimeDir (runtimeDir : FilePath) : FilePath := nameParity::runtimeDir

def distfileOutputManifestPath (runtimeDir : FilePath) : FilePath :=
  nameDistfiles::parityRuntimeDir runtimeDir

def distfileOutputBlobsDir (runtimeDir : FilePath) : FilePath :=
  nameBlobs::parityRuntimeDir runtimeDir

/-- `Path::join`, as the kernel walks the result. A NUL byte is refused. -/
def joined (dir : FilePath) (text : String) : Option (List (Hop FileName)) :=
  if text.toList.contains '\x00' then none
  else if isAbsolute text then some (hopsOf text)
  else some (hopsTo dir++hopsOf text)

def walkKind : WalkError → IoKind
  | .notFound => .notFound
  | .notADirectory => .notADirectory
  | .tooManyLinks => .other

def asFailure {α : Type} (r : Except IoKind α) : Except Failure α :=
  r.mapError fun kind => .io kind ""

def readNode : Node Bytes Bytes → Except IoKind Bytes
  | .file content => .ok content
  | .dir => .error .isADirectory
  | .link _ => .error .other

section
variable (runtimeDir : FilePath)

def readPath : StoreOp → Option (List (Hop FileName))
  | .readParityManifest _ => some (hopsTo (nameManifest::parityRuntimeDir runtimeDir))
  | .readDistfileManifest _ => some (hopsTo (distfileOutputManifestPath runtimeDir))
  | .readOutputBlob _ digest => joined (distfileOutputBlobsDir runtimeDir) digest
  | _ => none

def opened (t : FileTree) (o : StoreOp) : Except IoKind (Location FileName × Node Bytes Bytes) :=
  match readPath runtimeDir o with
  | none => .error .other
  | some hops =>
    match walk linkHops t maxLinks [] hops with
    | .error e => .error (walkKind e)
    | .ok loc =>
      match t.node loc with
      | none => .error .notFound
      | some node => .ok (loc,node)

def readOutput (t : FileTree) (o : StoreOp) : Except IoKind Bytes :=
  opened runtimeDir t o >>= fun found => readNode found.2

def isFileAt (t : FileTree) (loc : Location FileName) : Bool :=
  match t.node loc with
  | some (.file _) => true
  | _ => false

def ownOutput (t : FileTree) (loc : Location FileName) : Bool :=
  match locate linkHops t (parityRuntimeDir runtimeDir) with
  | .error _ => false
  | .ok parity =>
    loc == nameManifest::parity || loc == nameDistfiles::parity ||
      (loc.tail == nameBlobs::parity && loc != [] && isFileAt t loc)

def ReadsOwn (o : StoreOp) (t : FileTree) : Prop :=
  ∀ loc node, opened runtimeDir t o = .ok (loc,node) → ownOutput runtimeDir t loc

end

/-- `serde_json::from_slice` for the two manifests. -/
structure ManifestReaders where
  parity : Bytes → Option ParityManifest
  distfiles : Bytes → Option (BTreeMap SnapshotEntry)

/-- Where an ingest runs. Where the store puts a blob is up to it. -/
structure Ingest where
  env : Codecs
  readers : ManifestReaders
  stored : FileTree → Digest → Bytes → FileTree × Bool
  runtimeDir : FilePath

section
variable (c : Ingest)

def manifestOf {α : Type} (empty : α) (parse : Bytes → Option α) :
    Except IoKind Bytes → Except Failure α
  | .error .notFound => .ok empty
  | .error kind => .error (.io kind "Failed to read")
  | .ok bytes =>
    match parse bytes with
    | none => .error (.bail "Failed to parse")
    | some manifest => .ok manifest

def storable (env : Codecs) (digest : Digest) (bytes : Bytes) : Except Failure Unit :=
  if validDigest digest = false then .error (invalidDigest digest)
  else if env.sha256 bytes ≠ digest then
    .error (.bail s!"blob digest mismatch: expected {digest}, got {env.sha256 bytes}")
  else .ok ()

def storeOutput (t : FileTree) (digest : Digest) (bytes : Bytes) : FileTree × Except Failure Bool :=
  match storable c.env digest bytes with
  | .error e => (t,.error e)
  | .ok () => ((c.stored t digest bytes).1,.ok (c.stored t digest bytes).2)

def unlessFailed {α : Type} (t : FileTree) (answer : FileTree × Except Failure α) :
    Option Failure → FileTree × Except Failure α
  | some e => (t,.error e)
  | none => answer

/-- The operations of an ingest over the server's files. -/
def ingestSem : Sem StoreOp StoreRes FileTree (Option Failure)
  | .readParityManifest id, fault, t =>
    some (unlessFailed t (t,manifestOf ⟨∅,∅,∅⟩ c.readers.parity
      (readOutput c.runtimeDir t (.readParityManifest id))) fault)
  | .readDistfileManifest id, fault, t =>
    some (unlessFailed t (t,manifestOf ∅ c.readers.distfiles
      (readOutput c.runtimeDir t (.readDistfileManifest id))) fault)
  | .readOutputBlob id digest, fault, t =>
    some (unlessFailed t
      (t,asFailure (readOutput c.runtimeDir t (.readOutputBlob id digest))) fault)
  | .storeBlobForDigest digest bytes, fault, t =>
    some (unlessFailed t (storeOutput c t digest bytes) fault)
  | _, _, _ => none

def StaysInOutput {α : Type} (p : Prog StoreOp StoreRes α) (t : FileTree) : Prop :=
  Throughout (ingestSem c) (fun _ _ => True) (ReadsOwn c.runtimeDir) p t

def parityDigests (manifest : ParityManifest) : List Digest :=
  manifest.files.toList.map (fun e => e.2.digest)++manifest.symlinks.toList.map fun e => e.2.digest

variable {c} {id : WorkorderId} {t : FileTree} {α : Type} {o : StoreOp} {x : StoreProg α}

theorem stays_step {k : StoreRes o → Prog StoreOp StoreRes α}
    {answer : Option Failure → FileTree × StoreRes o}
    (hsem : ∀ fault, ingestSem c o fault t = some (answer fault)) :
    StaysInOutput c (.step o k) t ↔ ReadsOwn c.runtimeDir o t ∧
      ∀ fault, StaysInOutput c (k (answer fault).2) (answer fault).1 := by
  constructor
  · intro h
    exact ⟨(h trivial).1,fun fault => (h trivial).2 fault _ _ (hsem fault)⟩
  · intro h _
    refine ⟨h.1,fun fault t' r hs => ?_⟩
    have hnext := h.2 fault
    rw [Option.some.inj ((hsem fault).symm.trans hs)] at hnext
    exact hnext

theorem stays_call {β : Type} (o : StoreOp) (answer : FileTree × Except Failure α)
    {f : α → StoreProg β}
    (hx : ∀ k : Except Failure α → Prog StoreOp StoreRes (Except Failure β),
      StaysInOutput c (outcome x >>= k) t ↔ ReadsOwn c.runtimeDir o t ∧ ∀ fault,
        StaysInOutput c (k (unlessFailed t answer fault).2) (unlessFailed t answer fault).1) :
    StaysInOutput c (outcome (x >>= f)) t ↔ ReadsOwn c.runtimeDir o t ∧
      ∀ a, answer.2 = .ok a → StaysInOutput c (outcome (f a)) answer.1 := by
  rw [outcome_bind,hx]
  apply and_congr_right
  intro _
  constructor
  · intro h a ha
    have hnone := h none
    simp only [unlessFailed,ha] at hnone
    exact hnone
  · intro h fault
    cases fault with
    | some e => trivial
    | none =>
      cases ha : answer.2 with
      | error e =>
        simp only [unlessFailed,ha]
        trivial
      | ok a =>
        simp only [unlessFailed,ha]
        exact h a ha

theorem stays_storeBlob {digest : Digest} {bytes : Bytes} {p : StoreProg Unit} :
    StaysInOutput c (outcome (storeBlobForDigest digest bytes >>= fun _ => p)) t ↔
      (storable c.env digest bytes = .ok () →
        StaysInOutput c (outcome p) (c.stored t digest bytes).1) := by
  have hreads : ReadsOwn c.runtimeDir (.storeBlobForDigest digest bytes) t := by
    intro loc node h
    cases h
  rw [stays_call (.storeBlobForDigest digest bytes) (storeOutput c t digest bytes)
    fun k => stays_step fun _ => rfl]
  cases hok : storable c.env digest bytes with
  | error e =>
    refine iff_of_true ⟨hreads,?_⟩ (fun h => nomatch h)
    intro a ha
    rw [storeOutput,hok] at ha
    cases ha
  | ok u =>
    rw [storeOutput,hok]
    exact ⟨fun h _ => h.2 _ rfl,fun h => ⟨hreads,fun _ _ => h rfl⟩⟩

/-- The loop goes on behind a digest that could be read and stored. -/
theorem stays_ingestBlobs_cons (digest : Digest) (rest : List Digest) :
    StaysInOutput c (outcome (ingestBlobs id (digest::rest))) t ↔
      ReadsOwn c.runtimeDir (.readOutputBlob id digest) t ∧
      ∀ bytes, readOutput c.runtimeDir t (.readOutputBlob id digest) = .ok bytes →
        storable c.env digest bytes = .ok () →
        StaysInOutput c (outcome (ingestBlobs id rest)) (c.stored t digest bytes).1 := by
  rw [ingestBlobs,stays_call (.readOutputBlob id digest)
    (t,asFailure (readOutput c.runtimeDir t (.readOutputBlob id digest)))
    fun k => stays_step fun _ => rfl]
  simp only [stays_storeBlob]
  cases readOutput c.runtimeDir t (.readOutputBlob id digest) with
  | error kind => exact and_congr_right fun _ => iff_of_true (fun _ h => nomatch h) fun _ h => nomatch h
  | ok bytes =>
    refine and_congr_right fun _ => ⟨fun h a ha => ?_,fun h a ha => ?_⟩
    · cases ha
      exact h bytes rfl
    · cases ha
      exact h bytes rfl

theorem ingestBlobs_append (first second : List Digest) :
    ingestBlobs id (first++second) = (do ingestBlobs id first; ingestBlobs id second) := by
  induction first with
  | nil => rfl
  | cons digest rest ih =>
    simp only [List.cons_append,ingestBlobs,ih,fallible_bind_assoc]

theorem stays_ingest {empty : α} {parse : Bytes → Option α} {digests : α → List Digest}
    (hx : ∀ k : Except Failure α → Prog StoreOp StoreRes (Except Failure α),
      StaysInOutput c (outcome x >>= k) t ↔ ReadsOwn c.runtimeDir o t ∧ ∀ fault, StaysInOutput c
        (k (unlessFailed t (t,manifestOf empty parse (readOutput c.runtimeDir t o)) fault).2)
        (unlessFailed t (t,manifestOf empty parse (readOutput c.runtimeDir t o)) fault).1) :
    StaysInOutput c (outcome (x >>= fun manifest =>
        ingestBlobs id (digests manifest) >>= fun _ => pure manifest)) t ↔
      ReadsOwn c.runtimeDir o t ∧ ∀ manifest,
        manifestOf empty parse (readOutput c.runtimeDir t o) = .ok manifest →
          StaysInOutput c (outcome (ingestBlobs id (digests manifest))) t := by
  rw [stays_call o _ hx]
  refine and_congr_right fun _ => forall₂_congr fun manifest _ => ?_
  rw [outcome_bind]
  apply throughout_bind_iff
  intro r t'
  cases r <;> trivial

theorem stays_ingestFinalStateParity :
    StaysInOutput c (outcome (ingestFinalStateParity id)) t ↔
      ReadsOwn c.runtimeDir (.readParityManifest id) t ∧ ∀ manifest,
        manifestOf ⟨∅,∅,∅⟩ c.readers.parity
          (readOutput c.runtimeDir t (.readParityManifest id)) = .ok manifest →
        StaysInOutput c (outcome (ingestBlobs id (parityDigests manifest))) t := by
  have hprogram : ingestFinalStateParity id =
      ((ExceptT.mk (storeCall (.readParityManifest id)) : StoreProg ParityManifest) >>=
        fun manifest => ingestBlobs id (parityDigests manifest) >>= fun _ => pure manifest) := by
    simp only [parityDigests,ingestBlobs_append,fallible_bind_assoc]
    rfl
  rw [hprogram]
  exact stays_ingest fun k => stays_step fun _ => rfl

end

section

/-- The mount has its directory of blobs, and the worker has left no links there. -/
structure Unlinked (runtimeDir : FilePath) (t : FileTree) : Prop where
  blobs : t.isDirAt (distfileOutputBlobsDir runtimeDir)
  inBlobs : ∀ name, t.isLinkAt (name::distfileOutputBlobsDir runtimeDir) = false
  inParity : ∀ name, t.isLinkAt (name::parityRuntimeDir runtimeDir) = false

def entryAt (t : FileTree) (loc : Location FileName) : Except IoKind Bytes :=
  match t.node loc with
  | none => .error .notFound
  | some node => readNode node

/-- The text is one name, and not a path. -/
def PlainName (digest : Digest) : Prop := isFileName digest ∧ digest.toList.contains '\x00' = false

def blobAt (runtimeDir : FilePath) (digest : Digest) : Option (Location FileName) :=
  (toName digest).map (·::distfileOutputBlobsDir runtimeDir)

/-- The worker has left a file of this digest under its name. -/
def Held (env : Codecs) (runtimeDir : FilePath) (t : FileTree) (digest : Digest) : Prop :=
  ∃ loc bytes, blobAt runtimeDir digest = some loc ∧ entryAt t loc = .ok bytes ∧
    env.sha256 bytes = digest

/-- Of the digests up to the first one that is not held, none names a directory. -/
def NoDirectory (env : Codecs) (runtimeDir : FilePath) (t : FileTree) (digests : List Digest) :
    Prop :=
  ∀ before digest after, digests = before++digest::after → (∀ d ∈ before, Held env runtimeDir t d) →
    ∀ loc, blobAt runtimeDir digest = some loc → t.isDirAt loc = false

/-- What the store writes is not in the worker's mount. -/
def Apart (c : Ingest) : Prop :=
  ∀ t digest bytes loc, parityRuntimeDir c.runtimeDir <:+ loc →
    (c.stored t digest bytes).1.node loc = t.node loc

variable {c : Ingest} {env : Codecs} {runtimeDir : FilePath} {t t' : FileTree} {o : StoreOp}
  {name : FileName} {dir : Location FileName} {id : WorkorderId} {digest : Digest}

theorem opened_entry (hp : readPath runtimeDir o = some (hopsTo (name::dir))) (hd : t.isDirAt dir)
    (hl : t.isLinkAt (name::dir) = false) :
    opened runtimeDir t o = match t.node (name::dir) with
      | none => .error .notFound
      | some node => .ok (name::dir,node) := by
  simp only [opened,hp,walk_entry maxLinks hd hl]

theorem readOutput_entry (hp : readPath runtimeDir o = some (hopsTo (name::dir)))
    (hd : t.isDirAt dir) (hl : t.isLinkAt (name::dir) = false) :
    readOutput runtimeDir t o = entryAt t (name::dir) := by
  rw [readOutput,opened_entry hp hd hl,entryAt]
  cases t.node (name::dir) <;> rfl

theorem hopsOf_name (name : FileName) : hopsOf name.text = [.down name] := by
  obtain ⟨-,hnil,hdot,hup⟩ := name.text_ne
  have hsplit : name.text.toList.splitOn '/' = [name.text.toList] :=
    splitOn_keyOf (List.cons_ne_nil name [])
  have hhop : hopOf name.text.toList = some (.down name) := by
    rw [hopOf,if_neg (not_or.mpr ⟨hnil,hdot⟩),if_neg hup,String.ofList_toList,toName_text]
    rfl
  rw [hopsOf,hsplit]
  simp only [List.filterMap_cons,List.filterMap_nil,hhop]

theorem joined_plain (h : PlainName digest) (dir : FilePath) :
    joined dir digest = some (hopsTo (⟨digest,h.1⟩::dir)) := by
  have habs : isAbsolute digest = false :=
    isAbsolute_keyOf (List.cons_ne_nil (⟨digest,h.1⟩ : FileName) [])
  have hhops : hopsOf digest = [.down ⟨digest,h.1⟩] := hopsOf_name ⟨digest,h.1⟩
  simp only [joined,h.2,habs,hhops,hopsTo,List.reverse_cons,List.map_append,List.map_singleton]
  rfl

theorem blobAt_plain (h : PlainName digest) :
    blobAt runtimeDir digest = some (⟨digest,h.1⟩::distfileOutputBlobsDir runtimeDir) := by
  rw [blobAt,toName,dif_pos h.1,Option.map_some]

theorem Unlinked.parity (h : Unlinked runtimeDir t) : t.isDirAt (parityRuntimeDir runtimeDir) :=
  isDirAt_of_append [nameBlobs] h.blobs

theorem Unlinked.located (h : Unlinked runtimeDir t) :
    locate linkHops t (parityRuntimeDir runtimeDir) = .ok (parityRuntimeDir runtimeDir) :=
  walk_entry maxLinks (isDirAt_of_append [nameParity] h.parity) (not_link_of_dir h.parity)

theorem readsOwn_manifest (h : Unlinked runtimeDir t)
    (hp : readPath runtimeDir o = some (hopsTo (name::parityRuntimeDir runtimeDir)))
    (hname : name = nameManifest ∨ name = nameDistfiles) : ReadsOwn runtimeDir o t := by
  intro loc node hopened
  rw [opened_entry hp h.parity (h.inParity name)] at hopened
  have hloc : loc = name::parityRuntimeDir runtimeDir := by
    split at hopened <;> cases hopened
    rfl
  rw [ownOutput,h.located,hloc]
  rcases hname with rfl | rfl <;> simp

theorem readsOwn_blob (h : Unlinked runtimeDir t) (hplain : PlainName digest) :
    ReadsOwn runtimeDir (.readOutputBlob id digest) t ↔
      ∀ loc, blobAt runtimeDir digest = some loc → t.isDirAt loc = false := by
  have hlink := h.inBlobs ⟨digest,hplain.1⟩
  have hopened := opened_entry (o := .readOutputBlob id digest) (joined_plain hplain _) h.blobs hlink
  have hown : ownOutput runtimeDir t (⟨digest,hplain.1⟩::distfileOutputBlobsDir runtimeDir) =
      isFileAt t (⟨digest,hplain.1⟩::distfileOutputBlobsDir runtimeDir) := by
    have hne : nameBlobs::parityRuntimeDir runtimeDir ≠ parityRuntimeDir runtimeDir :=
      List.cons_ne_self _ _
    rw [ownOutput,h.located]
    simp [distfileOutputBlobsDir,beq_false_of_ne hne,bne]
  simp only [ReadsOwn,hopened,blobAt_plain hplain,Option.some.injEq,forall_eq']
  unfold Hierarchy.isLinkAt at hlink
  unfold Hierarchy.isDirAt
  unfold isFileAt at hown
  cases hn : t.node (⟨digest,hplain.1⟩::distfileOutputBlobsDir runtimeDir) with
  | none => simp
  | some node =>
    rw [hn] at hlink hown
    cases node with
    | dir => simp [hown,Node.isDir]
    | file content => simp [hown,Node.isDir]
    | link target => simp [Node.isLink] at hlink

/-- What is read is stored exactly if it is held. -/
theorem held_iff (id : WorkorderId) (h : Unlinked c.runtimeDir t) (hplain : PlainName digest) :
    Held c.env c.runtimeDir t digest ↔
      ∃ bytes, readOutput c.runtimeDir t (.readOutputBlob id digest) = .ok bytes ∧
        storable c.env digest bytes = .ok () := by
  have hread : readOutput c.runtimeDir t (.readOutputBlob id digest) = _ :=
    readOutput_entry (joined_plain hplain _) h.blobs (h.inBlobs ⟨digest,hplain.1⟩)
  have hstorable : ∀ bytes, storable c.env digest bytes = .ok () ↔ c.env.sha256 bytes = digest := by
    intro bytes
    constructor
    · intro hok
      unfold storable at hok
      split at hok
      · cases hok
      · split at hok
        · cases hok
        · next he => exact not_not.mp he
    · rintro rfl
      simp [storable,c.env.sha256_valid bytes]
  simp only [Held,blobAt_plain hplain,hread,hstorable,Option.some.injEq,exists_and_left,
    exists_eq_left']

theorem noDirectory_nil : NoDirectory env runtimeDir t [] := by
  intro before d after he
  simp at he

theorem noDirectory_cons (digest : Digest) (rest : List Digest) :
    NoDirectory env runtimeDir t (digest::rest) ↔
      (∀ loc, blobAt runtimeDir digest = some loc → t.isDirAt loc = false) ∧
        (Held env runtimeDir t digest → NoDirectory env runtimeDir t rest) := by
  constructor
  · intro h
    refine ⟨h [] digest rest rfl (by simp),fun hheld before d after he hbefore => ?_⟩
    exact h (digest::before) d after (by rw [he,List.cons_append])
      (List.forall_mem_cons.mpr ⟨hheld,hbefore⟩)
  · rintro ⟨hfirst,hrest⟩ before d after he hbefore
    cases before with
    | nil =>
      cases he
      exact hfirst
    | cons first before =>
      cases he
      obtain ⟨hheld,hbefore⟩ := List.forall_mem_cons.mp hbefore
      exact hrest hheld before d after rfl hbefore

section
variable (hsame : ∀ loc, parityRuntimeDir runtimeDir <:+ loc → t'.node loc = t.node loc)
include hsame

theorem Unlinked.of_same (h : Unlinked runtimeDir t) : Unlinked runtimeDir t' where
  blobs := (congrArg (·.any Node.isDir) (hsame _ (List.suffix_append [nameBlobs] _))).trans h.blobs
  inBlobs name := (congrArg (·.any Node.isLink)
    (hsame _ (List.suffix_append [name,nameBlobs] _))).trans (h.inBlobs name)
  inParity name := (congrArg (·.any Node.isLink)
    (hsame _ (List.suffix_append [name] _))).trans (h.inParity name)

theorem noDirectory_of_same (digests : List Digest) :
    NoDirectory env runtimeDir t' digests ↔ NoDirectory env runtimeDir t digests := by
  have hnode : ∀ digest loc, blobAt runtimeDir digest = some loc → t'.node loc = t.node loc := by
    intro digest loc hloc
    obtain ⟨name,-,rfl⟩ := Option.map_eq_some_iff.mp hloc
    exact hsame _ (List.suffix_append [name,nameBlobs] _)
  have hheld : ∀ d, Held env runtimeDir t' d ↔ Held env runtimeDir t d := by
    intro d
    refine exists₂_congr fun loc bytes => and_congr_right fun hloc => ?_
    rw [entryAt,entryAt,hnode d loc hloc]
  refine forall₄_congr fun before d after _ => imp_congr ?_ (forall₂_congr fun loc hloc => ?_)
  · exact forall₂_congr fun e _ => hheld e
  · rw [Hierarchy.isDirAt,Hierarchy.isDirAt,hnode d loc hloc]

end

theorem stays_ingestBlobs_iff (hapart : Apart c) (digests : List Digest)
    (h : Unlinked c.runtimeDir t) (hplain : ∀ d ∈ digests, PlainName d) :
    StaysInOutput c (outcome (ingestBlobs id digests)) t ↔
      NoDirectory c.env c.runtimeDir t digests := by
  induction digests generalizing t with
  | nil => exact iff_of_true trivial noDirectory_nil
  | cons digest rest ih =>
    obtain ⟨hfirst,hrest⟩ := List.forall_mem_cons.mp hplain
    rw [stays_ingestBlobs_cons,readsOwn_blob h hfirst,noDirectory_cons,held_iff id h hfirst]
    -- what a stored blob changes is none of the mount's business
    have hnext : ∀ bytes, StaysInOutput c (outcome (ingestBlobs id rest))
        (c.stored t digest bytes).1 ↔ NoDirectory c.env c.runtimeDir t rest := by
      intro bytes
      have hsame := hapart t digest bytes
      rw [ih (h.of_same hsame) hrest,noDirectory_of_same hsame]
    simp only [hnext,exists_imp,and_imp]

def manifestAt {α : Type} (runtimeDir : FilePath) (t : FileTree) (name : FileName) (empty : α)
    (parse : Bytes → Option α) : Except Failure α :=
  manifestOf empty parse (entryAt t (name::parityRuntimeDir runtimeDir))

theorem stays_mount_iff {α : Type} {empty : α} {parse : Bytes → Option α}
    {digests : α → List Digest} (hapart : Apart c) (h : Unlinked c.runtimeDir t)
    (hp : readPath c.runtimeDir o = some (hopsTo (name::parityRuntimeDir c.runtimeDir)))
    (hname : name = nameManifest ∨ name = nameDistfiles)
    (hplain : ∀ manifest, manifestAt c.runtimeDir t name empty parse = .ok manifest →
      ∀ d ∈ digests manifest, PlainName d) :
    (ReadsOwn c.runtimeDir o t ∧ ∀ manifest,
      manifestOf empty parse (readOutput c.runtimeDir t o) = .ok manifest →
        StaysInOutput c (outcome (ingestBlobs id (digests manifest))) t) ↔
      ∀ manifest, manifestAt c.runtimeDir t name empty parse = .ok manifest →
        NoDirectory c.env c.runtimeDir t (digests manifest) := by
  rw [readOutput_entry hp h.parity (h.inParity name),
    and_iff_right (readsOwn_manifest h hp hname)]
  exact forall₂_congr fun manifest hm => stays_ingestBlobs_iff hapart _ h (hplain manifest hm)

end

section
variable (c : Ingest) (id : WorkorderId) (t : FileTree)

end

def nameRun : FileName := ⟨"run",by decide⟩
def nameHeld : FileName := ⟨sampleSha256 [98],by decide⟩

def heldManifest : ParityManifest :=
  ⟨(∅ : BTreeMap ParityFileEntry).insert "var/lib/portage/world" ⟨sampleSha256 [98],1,0⟩,∅,∅⟩

def heldTree : FileTree :=
  ((((bareTree.put [nameRun] .dir).put (parityRuntimeDir [nameRun]) .dir).put
    (distfileOutputBlobsDir [nameRun]) .dir).put (nameHeld::distfileOutputBlobsDir [nameRun])
    (.file [98])).put (nameManifest::parityRuntimeDir [nameRun]) (.file [])

def sampleIngest (text : Bytes) (manifest : ParityManifest) : Ingest where
  env := plainCodecs
  readers := ⟨fun bytes => if bytes = text then some manifest else none,fun _ => none⟩
  stored := fun t _ _ => (t,true)
  runtimeDir := [nameRun]

theorem heldTree_unlinked : Unlinked [nameRun] heldTree := by
  have hbare : ∀ loc, bareTree.isLinkAt loc = false := by
    intro loc
    cases loc <;> rfl
  have hnone : ∀ loc, heldTree.isLinkAt loc = false :=
    unlinked_put (unlinked_put (unlinked_put (unlinked_put
      (unlinked_put hbare rfl) rfl) rfl) rfl) rfl
  exact ⟨by decide,fun _ => hnone _,fun _ => hnone _⟩

def nameEtc : FileName := ⟨"etc",Eq.refl true⟩
def nameShadow : FileName := ⟨"shadow",by decide⟩

def shadowManifest : ParityManifest :=
  ⟨(∅ : BTreeMap ParityFileEntry).insert "var/lib/portage/world" ⟨"/etc/shadow",1,0⟩,∅,∅⟩

def shadowText : Bytes :=
  ("\x7b\"files\":\x7b\"var/lib/portage/world\":" ++
    "\x7b\"digest\":\"/etc/shadow\",\"size\":1,\"mtime_secs\":0\x7d\x7d\x7d").toUTF8.toList

def serverTree : FileTree :=
  (((((bareTree.put [nameEtc] .dir).put [nameShadow,nameEtc] (.file [98])).put [nameRun]
    .dir).put (parityRuntimeDir [nameRun]) .dir).put (distfileOutputBlobsDir [nameRun])
    .dir).put (nameManifest::parityRuntimeDir [nameRun]) (.file shadowText)

end Remerge.OutputIngest
